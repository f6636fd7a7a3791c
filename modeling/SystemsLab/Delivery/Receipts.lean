import SystemsLab.Delivery.RetryLoop

/-!
# The receiver's records

An attempt that arrived has left its message in `processed_message_ids`, and whoever put it
there has counted it in the same transaction. So the count of a message says whether an attempt
arrived, over all runs.
-/

namespace SystemsLab.Delivery

open RowVersions

variable {first w w' : DeliveryWorld}

/-- The receiver is not working on the run, or has written nothing yet. -/
def SendRun.Quiet (r : SendRun) : Prop :=
  ∀ o receiver, r.phase = .delivering o receiver → receiver = .claiming

/-- What the open transaction of a run has added to the count of a message. -/
def SendRun.pending (r : SendRun) (messageId : Nat) : Int :=
  match r.phase with
  | .delivering _ (.committing true) => if messageId = r.messageId then 1 else 0
  | _ => 0

private theorem SendRun.Quiet.claimed {r : SendRun} (h : r.Quiet) : r.claimed = none := by
  unfold SendRun.claimed
  split
  · rename_i hp
    cases h _ _ hp
  · rename_i hp
    cases h _ _ hp
  · rfl

private theorem SendRun.Quiet.pending {r : SendRun} (h : r.Quiet) (k : Nat) : r.pending k = 0 := by
  unfold SendRun.pending
  split
  · rename_i hp
    cases h _ _ hp
  · rfl

/-- An attempt arrived. -/
def SendRun.Arrived (r : SendRun) : Prop := ∃ a ∈ r.attempts, a.outcome ≠ .sentLost

/-- A run goes on by itself: what has arrived stays, and nothing else arrives. -/
structure SendRun.GoesOn (r r' : SendRun) : Prop where
  quiet : r'.Quiet
  messageId : r'.messageId = r.messageId
  arrived : r'.Arrived ↔ r.Arrived

private theorem SendRun.arrived_push (r : SendRun) (o : NetworkOutcome) :
    (r.push o).Arrived ↔ r.Arrived ∨ o ≠ .messageLost := by
  unfold SendRun.Arrived SendRun.push
  have hlost : toDeliveryOutcome o = .sentLost ↔ o = .messageLost := by
    cases o <;> simp [toDeliveryOutcome]
  simp [or_and_right,exists_or,hlost]

private theorem SendRun.goesOn_iterate (r : SendRun) : r.GoesOn r.iterate := by
  unfold SendRun.iterate
  split
  · split
    · exact ⟨nofun,rfl,Iff.rfl⟩
    · refine ⟨nofun,rfl,?_⟩
      rw [SendRun.arrived_push]
      simp
    · refine ⟨fun _ _ hp => ?_,rfl,Iff.rfl⟩
      cases hp
      rfl
  · exact ⟨nofun,rfl,Iff.rfl⟩

private theorem SendRun.goesOn_afterReport (r : SendRun) (attempt : DeliveryAttempt) :
    r.GoesOn (r.afterReport attempt) := by
  unfold SendRun.afterReport
  split
  · exact ⟨nofun,rfl,Iff.rfl⟩
  · split
    · exact ⟨nofun,rfl,Iff.rfl⟩
    · have h := r.advance.goesOn_iterate
      exact ⟨h.quiet,h.messageId,h.arrived⟩

private theorem SendRun.Follows.receive {r : SendRun} {o : NetworkOutcome} {p : ReceiverPhase}
    (h : r.Follows) (hp : r.phase = .delivering o p) (next : ReceiverPhase) :
    ({ r with phase := .delivering o next } : SendRun).Follows := by
  unfold SendRun.Follows at h ⊢
  rw [hp] at h
  exact h

private theorem SendRun.Follows.not_lost {r : SendRun} {o : NetworkOutcome} {p : ReceiverPhase}
    (h : r.Follows) (hp : r.phase = .delivering o p) : o ≠ .messageLost := by
  unfold SendRun.Follows at h
  rw [hp] at h
  obtain ⟨_,_,_,_,hlost,_⟩ := h
  exact hlost

theorem SendRun.Follows.commit {r : SendRun} {o : NetworkOutcome} {p : ReceiverPhase}
    (h : r.Follows) (hp : r.phase = .delivering o p) : (r.push o).Follows := by
  unfold SendRun.Follows at h
  rw [hp] at h
  obtain ⟨k,hk,hmax,ho,hlost,hattempts,hfailed,hdeliveries⟩ := h
  apply SendRun.push_follows hk hmax ho hattempts hfailed
  rw [if_neg hlost]
  exact hdeliveries

inductive DeliveryMove (w : DeliveryWorld) : DeliveryWorld → Prop
  | sent (n messageId : Nat) (script : NetworkScript) (maxAttempts : Nat) : w.run n = none →
      DeliveryMove w (w.put n { messageId, script, maxAttempts : SendRun }.iterate)
  | wentOn (n : Nat) (r r' : SendRun) : w.run n = some r → r.Quiet → r.GoesOn r' →
      (r.Follows → r'.Follows) → DeliveryMove w (w.put n r')
  | conflicted (n : Nat) (r : SendRun) (o : NetworkOutcome) : w.run n = some r →
      r.phase = .delivering o .claiming → r.messageId ∈ w.processedIds →
      DeliveryMove w (w.put n { r with phase := .delivering o (.committing false) })
  | claimed (n : Nat) (r : SendRun) (o : NetworkOutcome) : w.run n = some r →
      r.phase = .delivering o .claiming → r.messageId ∉ w.processedIds →
      w.messageLock r.messageId = none →
      DeliveryMove w { w.put n { r with phase := .delivering o .updating } with
        messageLock := w.messageLock.acquire r.messageId n }
  | counted (n : Nat) (r : SendRun) (o : NetworkOutcome) (count : Int) : w.run n = some r →
      r.phase = .delivering o .updating →
      (w.notifications r.messageId).version n = some count →
      DeliveryMove w { w.put n { r with phase := .delivering o (.committing true) } with
        notifications := w.notifications.put n r.messageId (count + 1) }
  | committed (n : Nat) (r : SendRun) (o : NetworkOutcome) (applied : Bool) :
      w.run n = some r → r.phase = .delivering o (.committing applied) →
      DeliveryMove w (w.commitMessage n r o applied)
  | rejected (n : Nat) (r : SendRun) : w.run n = some r → DeliveryMove w (w.reject n r)

theorem claimMessage_move {n : Nat} {r : SendRun} {o : NetworkOutcome} (hr : w.run n = some r)
    (hp : r.phase = .delivering o .claiming) (h : w.claimMessage n r o = some w') :
    DeliveryMove w w' := by
  unfold DeliveryWorld.claimMessage at h
  split at h
  · rename_i hmem
    cases h
    exact .conflicted n r o hr hp hmem
  · rename_i hfresh
    split at h
    · cases h
    · rename_i hlock
      split at h
      · cases h
        exact .claimed n r o hr hp hfresh (Option.not_isSome_iff_eq_none.mp hlock)
      · cases h
        exact .rejected n r hr

theorem idempotentProcessMessage_move {n : Nat} {r : SendRun} (hr : w.run n = some r)
    (h : w.idempotentProcessMessage n r = some w') : DeliveryMove w w' := by
  unfold DeliveryWorld.idempotentProcessMessage at h
  split at h
  · rename_i o hp
    exact claimMessage_move hr hp h
  · rename_i o hp
    unfold DeliveryWorld.countMessage at h
    split at h
    · cases h
    · rename_i count hversion
      split at h
      · cases h
        exact .counted n r o count hr hp hversion
      · cases h
        exact .rejected n r hr
  · rename_i o applied hp
    cases h
    exact .committed n r o applied hr hp
  · cases h

theorem deliveryStep_move {e : DeliveryEvent} (h : deliveryStep w e = some w') :
    DeliveryMove w w' := by
  unfold deliveryStep at h
  cases e with
  | send n messageId script maxAttempts =>
    dsimp only at h
    split at h
    · cases h
    · rename_i hn
      cases h
      exact .sent n messageId script maxAttempts hn
  | receive n =>
    dsimp only at h
    split at h
    · rename_i r hr
      exact idempotentProcessMessage_move hr h
    · cases h
  | reject n =>
    dsimp only at h
    split at h
    · rename_i r hr
      split at h
      · cases h
        exact .rejected n r hr
      · cases h
    · cases h
  | report n ok =>
    dsimp only at h
    split at h
    · rename_i r hr
      split at h
      · rename_i attempt hp
        have hquiet : r.Quiet := by
          intro o receiver heq
          rw [hp] at heq
          cases heq
        cases h
        cases ok with
        | true =>
          exact .wentOn n r _ hr hquiet (r.goesOn_afterReport attempt)
            (SendRun.afterReport_follows hp)
        | false =>
          exact .wentOn n r _ hr hquiet ⟨nofun,rfl,Iff.rfl⟩ fun _ => trivial
      · cases h
    · cases h
  | wake n =>
    dsimp only at h
    split at h
    · rename_i r hr
      split at h
      · rename_i hp
        have hquiet : r.Quiet := by
          intro o receiver heq
          rw [hp] at heq
          cases heq
        have hgoesOn := r.advance.goesOn_iterate
        cases h
        exact .wentOn n r _ hr hquiet ⟨hgoesOn.quiet,hgoesOn.messageId,hgoesOn.arrived⟩
          (SendRun.wake_follows hp)
      · cases h
    · cases h

def DeliveryWorld.posted (first w : DeliveryWorld) (messageId : Nat) : Int :=
  (w.processedIds.count messageId : Int) - first.processedIds.count messageId

/-- Who put a message into `processed_message_ids`, and whom that concerns. -/
structure DeliveryWorld.Recorded (first w : DeliveryWorld) : Prop where
  follows : ∀ n r, w.run n = some r → r.Follows
  arrived : ∀ n r, w.run n = some r → r.Arrived → r.messageId ∈ w.processedIds
  found : ∀ n r o, w.run n = some r → r.phase = .delivering o (.committing false) →
    r.messageId ∈ w.processedIds
  origin : ∀ messageId ∈ w.processedIds, messageId ∈ first.processedIds ∨
    ∃ n r, w.run n = some r ∧ r.messageId = messageId ∧ r.Arrived
  kept : ∀ messageId ∈ first.processedIds, messageId ∈ w.processedIds

structure DeliveryWorld.Sound (first w : DeliveryWorld) : Prop where
  ids : UniqueIndex w.processedIds w.messageLock (holdings w.run SendRun.claimed)
  books : Books first.notifications w.notifications (first.posted w)
    (pendingOf w.run SendRun.pending)
  recorded : first.Recorded w

private theorem DeliveryWorld.Recorded.update (h : first.Recorded w) {n : Nat} {r : SendRun}
    (hrun : w'.run = Function.update w.run n (some r)) (hfollows : r.Follows)
    (hids : ∀ messageId ∈ w.processedIds, messageId ∈ w'.processedIds)
    (harrived : r.Arrived → r.messageId ∈ w'.processedIds)
    (hfound : ∀ o, r.phase = .delivering o (.committing false) → r.messageId ∈ w'.processedIds)
    (hkept : ∀ r₀, w.run n = some r₀ → r₀.Arrived → r.Arrived ∧ r.messageId = r₀.messageId)
    (hnew : ∀ messageId ∈ w'.processedIds, messageId ∈ w.processedIds ∨
      r.messageId = messageId ∧ r.Arrived) : first.Recorded w' := by
  have hself : w'.run n = some r := by
    rw [hrun]
    exact Function.update_self _ _ _
  refine ⟨?_,?_,?_,?_,fun messageId hfirst => hids _ (h.kept messageId hfirst)⟩
  · intro m s hs
    rw [hrun] at hs
    rcases update_eq_some hs with ⟨rfl,rfl⟩ | ⟨_,hold⟩
    · exact hfollows
    · exact h.follows m s hold
  · intro m s hs ha
    rw [hrun] at hs
    rcases update_eq_some hs with ⟨rfl,rfl⟩ | ⟨_,hold⟩
    · exact harrived ha
    · exact hids _ (h.arrived m s hold ha)
  · intro m s o hs hp
    rw [hrun] at hs
    rcases update_eq_some hs with ⟨rfl,rfl⟩ | ⟨_,hold⟩
    · exact hfound o hp
    · exact hids _ (h.found m s o hold hp)
  · intro messageId hmem
    rcases hnew messageId hmem with hold | ⟨heq,ha⟩
    · rcases h.origin messageId hold with hfirst | ⟨m,s,hs,heq,ha⟩
      · exact .inl hfirst
      · by_cases hm : m = n
        · subst hm
          obtain ⟨ha',heq'⟩ := hkept s hs ha
          exact .inr ⟨m,r,hself,heq'.trans heq,ha'⟩
        · refine .inr ⟨m,s,?_,heq,ha⟩
          rw [hrun,Function.update_of_ne hm]
          exact hs
    · exact .inr ⟨n,r,hself,heq,ha⟩

namespace DeliveryWorld.Sound

theorem start (h : first.Idle) : first.Sound first := by
  refine ⟨?_,?_,⟨?_,?_,?_,fun _ => .inl,fun _ => id⟩⟩
  · rw [h.locks,h.runs]
    exact ⟨h.nodup,LockTable.held_none,fun _ _ hk => nomatch hk⟩
  · have hposted : first.posted first = fun _ => 0 := funext fun _ => sub_self _
    rw [hposted,h.runs]
    exact .start h.rows
  · intro n r hr
    rw [h.runs] at hr
    cases hr
  · intro n r hr
    rw [h.runs] at hr
    cases hr
  · intro n r o hr
    rw [h.runs] at hr
    cases hr

private theorem goOn (h : first.Sound w) {n : Nat} {r : SendRun} (hfollows : r.Follows)
    (hr : r.Quiet)
    (hold : ∀ r₀, w.run n = some r₀ → r₀.Quiet ∧ (r.Arrived ↔ r₀.Arrived) ∧
      r.messageId = r₀.messageId)
    (hnew : w.run n = none → ¬ r.Arrived) : first.Sound (w.put n r) := by
  have hzero : holdings w.run SendRun.claimed n = none := by
    cases hn : w.run n with
    | none => exact holdings_of_none hn
    | some r₀ => rw [holdings_eq hn,(hold r₀ hn).1.claimed]
  refine ⟨?_,?_,?_⟩
  · exact h.ids.keepCall (hr.claimed.trans hzero.symm)
  · refine h.books.keepCall fun k => ?_
    rw [hr.pending]
    cases hn : w.run n with
    | none =>
      rw [pendingOf,hn]
    | some r₀ => rw [pendingOf_eq hn,(hold r₀ hn).1.pending]
  · refine h.recorded.update rfl hfollows (fun _ => id) ?_ ?_ ?_ fun _ => .inl
    · intro ha
      cases hn : w.run n with
      | none => exact absurd ha (hnew hn)
      | some r₀ =>
        rw [(hold r₀ hn).2.2]
        exact h.recorded.arrived n r₀ hn ((hold r₀ hn).2.1.mp ha)
    · intro o hp
      cases hr _ _ hp
    · intro r₀ hn ha
      exact ⟨(hold r₀ hn).2.1.mpr ha,(hold r₀ hn).2.2⟩

private theorem receive (h : first.Sound w) {n : Nat} {r : SendRun} {o : NetworkOutcome}
    {p next : ReceiverPhase} (hr : w.run n = some r) (hp : r.phase = .delivering o p)
    (hfound : next = .committing false → r.messageId ∈ w.processedIds)
    (hrun : w'.run = Function.update w.run n (some { r with phase := .delivering o next }))
    (hprocessed : w'.processedIds = w.processedIds) : first.Recorded w' := by
  refine h.recorded.update hrun ((h.recorded.follows n r hr).receive hp next) ?_ ?_ ?_ ?_ ?_
  · rw [hprocessed]
    exact fun _ => id
  · rw [hprocessed]
    exact h.recorded.arrived n r hr
  · intro o' heq
    rw [hprocessed]
    cases heq
    exact hfound rfl
  · intro r₀ hr₀ ha
    rw [hr] at hr₀
    cases hr₀
    exact ⟨ha,rfl⟩
  · rw [hprocessed]
    exact fun _ => .inl

theorem commit (h : first.Sound w) {n : Nat} {r : SendRun} {o : NetworkOutcome} {applied : Bool}
    (hr : w.run n = some r) (hp : r.phase = .delivering o (.committing applied)) :
    first.Sound (w.commitMessage n r o applied) := by
  have hfollows := h.recorded.follows n r hr
  have hlost := hfollows.not_lost hp
  have hquiet : (r.push o).Quiet := nofun
  have harrived : (r.push o).Arrived := (r.arrived_push o).mpr (.inr hlost)
  have hmem : r.messageId ∈ (w.commitMessage n r o applied).processedIds := by
    show r.messageId ∈ if applied then w.processedIds ++ [r.messageId] else w.processedIds
    cases applied with
    | true => exact List.mem_append_right _ (List.mem_singleton_self _)
    | false => exact h.recorded.found n r o hr hp
  refine ⟨?_,?_,?_⟩
  · cases applied with
    | true =>
      have hclaimed : r.claimed = some r.messageId := by
        unfold SendRun.claimed
        rw [hp]
      exact h.ids.commitCall hr hclaimed hquiet.claimed
    | false => exact h.ids.rollbackCall hr hquiet.claimed
  · refine h.books.commitCall hr (fun k => ?_) hquiet.pending
    unfold DeliveryWorld.posted SendRun.pending
    rw [hp]
    show ((if applied then w.processedIds ++ [r.messageId] else w.processedIds).count k : Int) - _ = _
    cases applied with
    | true =>
      rw [if_pos rfl,List.count_append,List.count_singleton]
      by_cases hk : k = r.messageId
      · subst hk
        simp
        omega
      · simp [hk,Ne.symm hk]
    | false => simp
  · refine h.recorded.update rfl (hfollows.commit hp) ?_ (fun _ => hmem) ?_ ?_ ?_
    · intro messageId hold
      show messageId ∈ if applied then w.processedIds ++ [r.messageId] else w.processedIds
      cases applied with
      | true => exact List.mem_append_left _ hold
      | false => exact hold
    · nofun
    · intro r₀ hr₀ ha
      rw [hr] at hr₀
      cases hr₀
      exact ⟨harrived,rfl⟩
    · intro messageId hnew
      have hnew : messageId ∈ if applied then w.processedIds ++ [r.messageId] else w.processedIds :=
        hnew
      cases applied with
      | true =>
        rcases List.mem_append.mp hnew with hold | heq
        · exact .inl hold
        · exact .inr ⟨(List.mem_singleton.mp heq).symm,harrived⟩
      | false => exact .inl hnew

private theorem reject (h : first.Sound w) {n : Nat} {r : SendRun} (hr : w.run n = some r) :
    first.Sound (w.reject n r) := by
  have hquiet : ({ r with phase := .threw } : SendRun).Quiet := nofun
  refine ⟨?_,h.books.rollbackCall hquiet.pending,?_⟩
  · exact h.ids.rollbackCall hr hquiet.claimed
  · refine h.recorded.update rfl trivial (fun _ => id) (h.recorded.arrived n r hr) nofun ?_
      fun _ => .inl
    intro r₀ hr₀ ha
    rw [hr] at hr₀
    cases hr₀
    exact ⟨ha,rfl⟩

theorem move (h : first.Sound w) (hm : DeliveryMove w w') : first.Sound w' := by
  cases hm with
  | sent n messageId script maxAttempts hn =>
    have hgoesOn := SendRun.goesOn_iterate { messageId, script, maxAttempts }
    refine h.goOn (SendRun.start_follows messageId script maxAttempts) hgoesOn.quiet ?_ ?_
    · intro r₀ hr₀
      rw [hn] at hr₀
      cases hr₀
    · intro _ ha
      obtain ⟨a,hmem,_⟩ := hgoesOn.arrived.mp ha
      cases hmem
  | wentOn n r r' hr hquiet hgoesOn hfollows =>
    refine h.goOn (hfollows (h.recorded.follows n r hr)) hgoesOn.quiet ?_ ?_
    · exact forall_of_eq_some hr ⟨hquiet,hgoesOn.arrived,hgoesOn.messageId⟩
    · intro hn
      rw [hr] at hn
      cases hn
  | conflicted n r o hr hp hmem =>
    refine ⟨?_,?_,h.receive hr hp (fun _ => hmem) rfl rfl⟩
    · refine h.ids.keepCall ?_
      rw [holdings_eq hr]
      unfold SendRun.claimed
      rw [hp]
    · refine h.books.keepCall fun k => ?_
      rw [pendingOf_eq hr]
      unfold SendRun.pending
      rw [hp]
  | claimed n r o hr hp hfresh hlock =>
    have hnone : r.claimed = none := by
      unfold SendRun.claimed
      rw [hp]
    refine ⟨?_,?_,h.receive hr hp (by nofun) rfl rfl⟩
    · exact h.ids.insertCall hr hnone hlock hfresh rfl
    · refine h.books.keepCall fun k => ?_
      rw [pendingOf_eq hr]
      unfold SendRun.pending
      rw [hp]
  | counted n r o count hr hp hversion =>
    refine ⟨?_,?_,h.receive hr hp (by nofun) rfl rfl⟩
    · refine h.ids.keepCall ?_
      rw [holdings_eq hr]
      unfold SendRun.claimed
      rw [hp]
    · refine h.books.addCall hr hversion fun k => ?_
      unfold SendRun.pending
      rw [hp]
      exact (zero_add _).symm
  | committed n r o applied hr hp => exact h.commit hr hp
  | rejected n r hr => exact h.reject hr

end DeliveryWorld.Sound

end SystemsLab.Delivery
