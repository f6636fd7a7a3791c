import SystemsLab.Delivery.SendProgress

/-!
# Effectively once

What a run returns follows its script, and the count of a message says whether an attempt arrived,
over all runs. A run returns unless something fails.
-/

namespace SystemsLab.Delivery

variable {first w : DeliveryWorld}

/-- After the events `es`. The last three fields say that runs return: each has a bounded number of
steps, the runs on their way can be led to their ends, and one that was served ends with a result. -/
structure DeliveryWorld.EffectivelyOnce (first : DeliveryWorld) (es : List DeliveryEvent)
    (w : DeliveryWorld) : Prop where
  attempts : ∀ n r result, w.run n = some r → r.phase = .returned result →
    result.attempts = numberedAttempts (upToSuccess (r.script.outcomesUpTo r.maxAttempts))
  acked : ∀ n r result, w.run n = some r → r.phase = .returned result →
    (result.acked = true ↔ .success ∈ upToSuccess (r.script.outcomesUpTo r.maxAttempts))
  deliveries : ∀ n r result, w.run n = some r → r.phase = .returned result →
    r.deliveries = arrivedAttempts result.attempts
  counted : ∀ messageId, messageId ∉ first.processedIds →
    (∃ n r, w.run n = some r ∧ r.messageId = messageId ∧ r.Arrived) →
    (w.notifications messageId).committed = (first.notifications messageId).committed + 1
  uncounted : ∀ messageId, (∀ n r, w.run n = some r → r.messageId = messageId → ¬ r.Arrived) →
    (w.notifications messageId).committed = (first.notifications messageId).committed
  bounded : ∀ n r, w.run n = some r → es.countP (·.run == n) ≤ 5 * r.maxAttempts + 1
  returned : w.Complete → ∀ n r, w.run n = some r → r.Served first es n →
    ∃ result, r.phase = .returned result
  leads : ∃ later w', (∀ e ∈ later, DeliveryEvent.GoesOn e) ∧
    SystemsLab.run deliveryStep w later = some w' ∧ ∀ n r, w.run n = some r →
      r.Served first es n → ∃ r' result, w'.run n = some r' ∧ r'.phase = .returned result

private theorem success_mem_upToSuccess {outcomes : List NetworkOutcome} :
    .success ∈ upToSuccess outcomes ↔ .success ∈ outcomes := by
  induction outcomes with
  | nil => rfl
  | cons o os ih => cases o <;> simp [upToSuccess,ih]

private theorem DeliveryWorld.Sound.count_eq (h : first.Sound w) (messageId : Nat) :
    (w.notifications messageId).committed = (first.notifications messageId).committed +
      ((w.processedIds.count messageId : Int) - first.processedIds.count messageId) :=
  h.books.posted messageId

theorem progress_of_run {es : List DeliveryEvent} (hfirst : first.Idle)
    (h : run deliveryStep first es = some w) : first.Progress es w :=
  run_history (P := first.Progress) (.start hfirst) (fun _ _ _ _ hp hs => hp.step hs) h

/-- Whoever was served so far is led to a result. -/
theorem DeliveryWorld.Progress.leads {es : List DeliveryEvent} (hfirst : first.Idle)
    (hrun : SystemsLab.run deliveryStep first es = some w) (h : first.Progress es w) :
    ∃ later w', (∀ e ∈ later, DeliveryEvent.GoesOn e) ∧
      SystemsLab.run deliveryStep w later = some w' ∧ ∀ n r, w.run n = some r →
        r.Served first es n → ∃ r' result, w'.run n = some r' ∧ r'.phase = .returned result := by
  have hreachable : Reachable deliveryStep (· = first) w := Reachable.run (.start rfl) hrun
  obtain ⟨later,w',hlater,hend,hcomplete⟩ := exists_complete hfirst hreachable
  refine ⟨later,w',hlater,hend,fun n r hr hserved => ?_⟩
  have hall : SystemsLab.run deliveryStep first (es ++ later) = some w' := by
    rw [run_append,hrun]
    exact hend
  obtain ⟨r',hr',hsame⟩ := same_of_run h.sound hr hend
  have hserved' : r'.Served first (es ++ later) n := by
    refine ⟨?_,?_,?_,fun e he => ?_⟩
    · rw [hsame.script]
      exact hserved.script
    · rw [hsame.messageId]
      exact hserved.known
    · rw [hsame.messageId]
      exact hserved.room
    · rcases List.mem_append.mp he with hold | hnew
      · exact hserved.commits e hold
      · exact (hlater e hnew).not_fails n
  obtain ⟨result,hresult⟩ := (progress_of_run hfirst hall).returned hcomplete hr' hserved'
  exact ⟨r',result,hr',hresult⟩

theorem sendWithRetry_effectivelyOnce {es : List DeliveryEvent} (hfirst : first.Idle)
    (h : run deliveryStep first es = some w) : first.EffectivelyOnce es w := by
  have hprogress := progress_of_run hfirst h
  have hw := hprogress.sound
  have hreturned : ∀ n r result, w.run n = some r → r.phase = .returned result →
      result.attempts = r.attempts ∧
      r.attempts = numberedAttempts (upToSuccess (r.script.outcomesUpTo r.maxAttempts)) ∧
      (result.acked = true ↔ .success ∈ r.script.outcomesUpTo r.maxAttempts) ∧
      r.deliveries = arrivedAttempts r.attempts := by
    intro n r result hr hp
    have hfollows := hw.recorded.follows n r hr
    unfold SendRun.Follows at hfollows
    rw [hp] at hfollows
    exact hfollows
  refine ⟨?_,?_,?_,?_,?_,?_,fun hcomplete n r hr hserved => hprogress.returned hcomplete hr hserved,
    hprogress.leads hfirst h⟩
  · intro n r result hr hp
    obtain ⟨heq,hattempts,_⟩ := hreturned n r result hr hp
    rw [heq,hattempts]
  · intro n r result hr hp
    rw [success_mem_upToSuccess]
    exact (hreturned n r result hr hp).2.2.1
  · intro n r result hr hp
    obtain ⟨heq,_,_,hdeliveries⟩ := hreturned n r result hr hp
    rw [heq,hdeliveries]
  · rintro messageId hnew ⟨n,r,hr,rfl,ha⟩
    have hmem := hw.recorded.arrived n r hr ha
    rw [hw.count_eq,List.count_eq_one_of_mem hw.ids.nodup hmem,List.count_eq_zero.mpr hnew]
    rfl
  · intro messageId hnone
    have hcount : w.processedIds.count messageId = first.processedIds.count messageId := by
      by_cases hmem : messageId ∈ w.processedIds
      · have hold : messageId ∈ first.processedIds := by
          rcases hw.recorded.origin messageId hmem with hfirst | ⟨n,r,hr,heq,ha⟩
          · exact hfirst
          · exact absurd ha (hnone n r hr heq)
        rw [List.count_eq_one_of_mem hw.ids.nodup hmem,
          List.count_eq_one_of_mem hfirst.nodup hold]
      · rw [List.count_eq_zero.mpr hmem,
          List.count_eq_zero.mpr fun hold => hmem (hw.recorded.kept messageId hold)]
    rw [hw.count_eq,hcount]
    omega
  · intro n r hr
    have hspent := hprogress.spent n r hr
    omega

/-- Two runs for one message: the first loses its acknowledgment and sends again while the
second one waits for the claim; a third run is lost every time. -/
def lostAcknowledgment : List DeliveryEvent :=
  [.send 0 7 ⟨[.messageLost,.ackLost,.success]⟩ 5,.report 0 true,.wake 0,.receive 0,
    .send 1 7 ⟨[.ackLost]⟩ 1,.receive 0,.receive 0,.receive 1,.receive 1,.report 1 true,
    .report 0 true,.wake 0,.receive 0,.receive 0,.report 0 true,
    .send 2 8 ⟨[.messageLost]⟩ 2,.report 2 true,.wake 2,.report 2 true]

def twoNotifications : DeliveryWorld where
  known k := k == 7 || k == 8
  notifications _ := { committed := 0 }

theorem lostAcknowledgment_effectivelyOnce :
    ∃ w, run deliveryStep twoNotifications lostAcknowledgment = some w ∧
      twoNotifications.EffectivelyOnce lostAcknowledgment w ∧ (w.notifications 7).committed = 1 ∧
      (w.notifications 8).committed = 0 ∧ (w.run 0).map (·.deliveries) = some [2,3] := by
  have hidle : twoNotifications.Idle := ⟨fun _ => rfl,List.nodup_nil,rfl,rfl⟩
  have hrun : (run deliveryStep twoNotifications lostAcknowledgment).any (fun w =>
      decide ((w.notifications 7).committed = 1 ∧ (w.notifications 8).committed = 0 ∧
        (w.run 0).map (·.deliveries) = some [2,3])) = true := by
    decide +kernel
  obtain ⟨w,hw,hresult,-⟩ := exists_run_of_any hrun
  exact ⟨w,hw,sendWithRetry_effectivelyOnce hidle hw,of_decide_eq_true hresult⟩

end SystemsLab.Delivery
