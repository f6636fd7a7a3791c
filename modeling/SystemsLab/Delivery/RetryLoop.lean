import SystemsLab.Delivery.Sender

/-!
# The retry loop

The attempts of a run follow its script, one after the other, up to the first `success` or the
last attempt that is allowed. The receiver is called for those that the network does not lose.
-/

namespace SystemsLab.Delivery

theorem outcomeForAttempt_ok {script : NetworkScript} (h : script.outcomes ≠ []) (n : Nat) :
    ∃ o, outcomeForAttempt script n = .ok o := by
  unfold outcomeForAttempt
  split
  · contradiction
  · exact ⟨_,rfl⟩

private theorem outcomes_ne_nil {script : NetworkScript} {n : Nat} {o : NetworkOutcome}
    (h : outcomeForAttempt script n = .ok o) : script.outcomes ≠ [] := by
  intro hnil
  unfold outcomeForAttempt at h
  rw [hnil] at h
  cases h

variable {script : NetworkScript} {o : NetworkOutcome} {k : Nat}

private theorem outcomesUpTo_succ (h : outcomeForAttempt script (k + 1) = .ok o) :
    script.outcomesUpTo (k + 1) = script.outcomesUpTo k ++ [o] := by
  unfold NetworkScript.outcomesUpTo
  rw [List.range_succ,List.filterMap_append]
  simp only [List.filterMap_cons,List.filterMap_nil,h,Except.toOption]

private theorem outcomesUpTo_length (h : script.outcomes ≠ []) :
    (script.outcomesUpTo k).length = k := by
  induction k with
  | zero => rfl
  | succ k ih =>
    obtain ⟨o,ho⟩ := outcomeForAttempt_ok h (k + 1)
    rw [outcomesUpTo_succ ho,List.length_append,ih]
    rfl

private theorem outcomesUpTo_prefix {m : Nat} (h : k ≤ m) :
    script.outcomesUpTo k <+: script.outcomesUpTo m := by
  obtain ⟨d,rfl⟩ := Nat.exists_eq_add_of_le h
  unfold NetworkScript.outcomesUpTo
  rw [List.range_add,List.filterMap_append]
  exact List.prefix_append _ _

private theorem upToSuccess_of_not_mem {outcomes : List NetworkOutcome} (h : .success ∉ outcomes) :
    upToSuccess outcomes = outcomes := by
  induction outcomes with
  | nil => rfl
  | cons o os ih =>
    rw [List.mem_cons,not_or] at h
    cases o with
    | success => exact absurd rfl h.1
    | messageLost => rw [upToSuccess,ih h.2]; nofun
    | ackLost => rw [upToSuccess,ih h.2]; nofun

private theorem upToSuccess_append {outcomes : List NetworkOutcome} (h : .success ∉ outcomes)
    (later : List NetworkOutcome) :
    upToSuccess (outcomes ++ .success::later) = outcomes ++ [.success] := by
  induction outcomes with
  | nil => rfl
  | cons o os ih =>
    rw [List.mem_cons,not_or] at h
    cases o with
    | success => exact absurd rfl h.1
    | messageLost => rw [List.cons_append,upToSuccess,ih h.2]; rfl; nofun
    | ackLost => rw [List.cons_append,upToSuccess,ih h.2]; rfl; nofun

private theorem numberedAttempts_append (outcomes : List NetworkOutcome) (o : NetworkOutcome) :
    numberedAttempts (outcomes ++ [o]) =
      numberedAttempts outcomes ++ [⟨outcomes.length + 1,toDeliveryOutcome o⟩] := by
  unfold numberedAttempts
  rw [List.mapIdx_append]
  simp

private theorem arrivedAttempts_append (attempts : List DeliveryAttempt) (n : Nat)
    (o : NetworkOutcome) :
    arrivedAttempts (attempts ++ [⟨n,toDeliveryOutcome o⟩]) =
      arrivedAttempts attempts ++ if o = .messageLost then [] else [n] := by
  unfold arrivedAttempts
  rw [List.filter_append,List.map_append]
  congr 1
  cases o <;> rfl

/-- Where a run is: `k` attempts are decided, and none of them was a `success`. -/
structure SendRun.Decided (r : SendRun) (k : Nat) : Prop where
  attempts : r.attempts = numberedAttempts (r.script.outcomesUpTo k)
  failed : .success ∉ r.script.outcomesUpTo k
  deliveries : r.deliveries = arrivedAttempts r.attempts

/-- The attempts and the calls of the receiver that the phase of a run has behind it. -/
def SendRun.Follows (r : SendRun) : Prop :=
  match r.phase with
  | .delivering o _ => ∃ k, r.attemptNumber = k + 1 ∧ k + 1 ≤ r.maxAttempts ∧
      outcomeForAttempt r.script (k + 1) = .ok o ∧ o ≠ .messageLost ∧
      r.attempts = numberedAttempts (r.script.outcomesUpTo k) ∧
      .success ∉ r.script.outcomesUpTo k ∧ r.deliveries = arrivedAttempts r.attempts ++ [k + 1]
  | .reporting attempt => ∃ k o, r.attemptNumber = k + 1 ∧ k + 1 ≤ r.maxAttempts ∧
      outcomeForAttempt r.script (k + 1) = .ok o ∧ attempt = ⟨k + 1,toDeliveryOutcome o⟩ ∧
      r.attempts = numberedAttempts (r.script.outcomesUpTo (k + 1)) ∧
      .success ∉ r.script.outcomesUpTo k ∧ r.deliveries = arrivedAttempts r.attempts
  | .sleeping => r.attemptNumber < r.maxAttempts ∧ r.Decided r.attemptNumber
  | .returned result => result.attempts = r.attempts ∧
      r.attempts = numberedAttempts (upToSuccess (r.script.outcomesUpTo r.maxAttempts)) ∧
      (result.acked = true ↔ .success ∈ r.script.outcomesUpTo r.maxAttempts) ∧
      r.deliveries = arrivedAttempts r.attempts
  | .threw => True

theorem SendRun.push_follows {r : SendRun} (hk : r.attemptNumber = k + 1)
    (hmax : k + 1 ≤ r.maxAttempts) (ho : outcomeForAttempt r.script (k + 1) = .ok o)
    (hattempts : r.attempts = numberedAttempts (r.script.outcomesUpTo k))
    (hfailed : .success ∉ r.script.outcomesUpTo k)
    (hdeliveries : r.deliveries =
      arrivedAttempts r.attempts ++ if o = .messageLost then [] else [k + 1]) :
    (r.push o).Follows := by
  have hpushed : (r.push o).attempts = r.attempts ++ [⟨k + 1,toDeliveryOutcome o⟩] := by
    unfold SendRun.push
    rw [hk]
  refine ⟨k,o,hk,hmax,ho,?_,?_,hfailed,?_⟩
  · rw [hk]
  · rw [hpushed,hattempts,show (r.push o).script = r.script from rfl,outcomesUpTo_succ ho,
      numberedAttempts_append,outcomesUpTo_length (outcomes_ne_nil ho)]
  · rw [hpushed,arrivedAttempts_append]
    exact hdeliveries

private theorem SendRun.Decided.iterate {r : SendRun} (h : r.Decided k)
    (hk : r.attemptNumber = k + 1)
    (hmax : k ≤ r.maxAttempts) : r.iterate.Follows := by
  unfold SendRun.iterate
  by_cases hle : r.attemptNumber ≤ r.maxAttempts
  · rw [if_pos hle]
    rw [hk] at hle
    split
    · trivial
    · rename_i ho
      rw [hk] at ho
      apply SendRun.push_follows hk hle ho h.attempts h.failed
      rw [if_pos rfl,List.append_nil]
      exact h.deliveries
    · rename_i o hlost ho
      rw [hk] at ho
      refine ⟨k,hk,hle,ho,hlost,h.attempts,h.failed,?_⟩
      show r.deliveries ++ [r.attemptNumber] = _
      rw [h.deliveries,hk]
  · rw [if_neg hle]
    have heq : r.maxAttempts = k := by omega
    have hnone : .success ∉ r.script.outcomesUpTo r.maxAttempts := by
      rw [heq]
      exact h.failed
    refine ⟨rfl,?_,?_,h.deliveries⟩
    · show r.attempts = numberedAttempts (upToSuccess (r.script.outcomesUpTo r.maxAttempts))
      rw [upToSuccess_of_not_mem hnone,h.attempts,heq]
    · exact iff_of_false nofun hnone

theorem SendRun.afterReport_follows {r : SendRun} {attempt : DeliveryAttempt}
    (hp : r.phase = .reporting attempt) (h : r.Follows) : (r.afterReport attempt).Follows := by
  unfold SendRun.Follows at h
  rw [hp] at h
  obtain ⟨k,o,hk,hmax,ho,rfl,hattempts,hfailed,hdeliveries⟩ := h
  unfold SendRun.afterReport
  by_cases hacked : toDeliveryOutcome o = .deliveredAcked
  · rw [if_pos hacked]
    obtain rfl : o = .success := by cases o <;> first | rfl | cases hacked
    obtain ⟨later,hlater⟩ : r.script.outcomesUpTo (k + 1) <+: r.script.outcomesUpTo r.maxAttempts :=
      outcomesUpTo_prefix hmax
    rw [outcomesUpTo_succ ho,List.append_assoc] at hlater
    refine ⟨rfl,?_,?_,hdeliveries⟩
    · show r.attempts = numberedAttempts (upToSuccess (r.script.outcomesUpTo r.maxAttempts))
      rw [← hlater,hattempts,outcomesUpTo_succ ho]
      exact congrArg numberedAttempts (upToSuccess_append hfailed later).symm
    · refine iff_of_true rfl ?_
      show .success ∈ r.script.outcomesUpTo r.maxAttempts
      rw [← hlater]
      simp
  · rw [if_neg hacked]
    have hdecided : r.Decided (k + 1) := by
      refine ⟨hattempts,?_,hdeliveries⟩
      rw [outcomesUpTo_succ ho,List.mem_append,List.mem_singleton]
      rintro (hold | rfl)
      · exact hfailed hold
      · exact hacked rfl
    by_cases hlt : r.attemptNumber < r.maxAttempts
    · rw [if_pos hlt]
      refine ⟨hlt,?_⟩
      show SendRun.Decided _ r.attemptNumber
      rw [hk]
      exact ⟨hdecided.attempts,hdecided.failed,hdecided.deliveries⟩
    · rw [if_neg hlt]
      refine SendRun.Decided.iterate (k := k + 1) (r := r.advance)
        ⟨hdecided.attempts,hdecided.failed,hdecided.deliveries⟩ ?_ hmax
      show r.attemptNumber + 1 = _
      rw [hk]

theorem SendRun.wake_follows {r : SendRun} (hp : r.phase = .sleeping) (h : r.Follows) :
    r.advance.iterate.Follows := by
  unfold SendRun.Follows at h
  rw [hp] at h
  exact SendRun.Decided.iterate (k := r.attemptNumber) (r := r.advance)
    ⟨h.2.attempts,h.2.failed,h.2.deliveries⟩ rfl h.1.le

theorem SendRun.start_follows (messageId : Nat) (script : NetworkScript) (maxAttempts : Nat) :
    ({ messageId, script, maxAttempts : SendRun }).iterate.Follows :=
  SendRun.Decided.iterate (k := 0) ⟨rfl,List.not_mem_nil,rfl⟩ rfl (Nat.zero_le _)

end SystemsLab.Delivery
