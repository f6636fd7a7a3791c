import SystemsLab.Capstone.AttemptBudget

/-!
# Events that are given up

A claim that meets an open breaker is recorded as a failed attempt like any other, so it
spends the event's budget. An event can fail without a single send. What holds instead: the
last claim of a failed event was answered, by a send or by the breaker.
-/

namespace SystemsLab.Capstone

open SystemsLab.Outbox SystemsLab.Resilience

/-- The claim has led to a send, or the breaker has turned it away, or its worker was
configured to make no attempts at all. -/
def PipelineWorld.Answered (f : Fleet) (w : PipelineWorld) (l : Lease Nat String) : Prop :=
  (∃ s ∈ w.sends, s.eventId = l.item ∧ s.number = l.number) ∨ l ∈ w.rejected ∨
    (f.optsOf l.holder).maxAttempts = 0

theorem PipelineWorld.Answered.mono {f : Fleet} {w w' : PipelineWorld} {l : Lease Nat String}
    (h : w.Answered f l) (hsends : ∀ s ∈ w.sends, s ∈ w'.sends)
    (hrejected : ∀ k ∈ w.rejected, k ∈ w'.rejected) : w'.Answered f l := by
  rcases h with ⟨s,hs,heq⟩ | hr | hzero
  · exact .inl ⟨s,hsends s hs,heq⟩
  · exact .inr (.inl (hrejected l hr))
  · exact .inr (.inr hzero)

/-- The event was given up on its newest claim, and that claim was answered. -/
def PipelineWorld.GivenUp (f : Fleet) (w : PipelineWorld) (row : OutboxRow EventPayload) :
    Prop :=
  row.maxAttempts ≤ row.attempts ∧
    ∃ l, (leasesOf row.id w.log).head? = some l ∧ w.Answered f l

structure PipelineWorld.Accounted (f : Fleet) (w : PipelineWorld) : Prop where
  tried : ∀ v l, (w.worker v).lease = some l → (w.worker v).phase.tried = true →
    w.Answered f l
  failed : ∀ row ∈ w.rows, row.status = .failed → w.GivenUp f row

theorem PipelineWorld.Accounted.frame {f : Fleet} {w w' : PipelineWorld} (h : w.Accounted f)
    (hrows : w'.rows = w.rows) (hlog : w'.log = w.log)
    (hmono : ∀ l, w.Answered f l → w'.Answered f l) {v : String} {b : ProtectedWorker}
    (hworker : w'.worker = Function.update w.worker v b)
    (hb : ∀ l, b.lease = some l → b.phase.tried = true → w'.Answered f l) : w'.Accounted f := by
  constructor
  · intro u l hl ht
    by_cases hu : u = v
    · subst hu
      rw [hworker,Function.update_self] at hl ht
      exact hb l hl ht
    · rw [hworker,Function.update_of_ne hu] at hl ht
      exact hmono l (h.tried u l hl ht)
  · intro row hrow hs
    rw [hrows] at hrow
    obtain ⟨hmax,l,hl,ha⟩ := h.failed row hrow hs
    refine ⟨hmax,l,?_,hmono l ha⟩
    rw [hlog]
    exact hl

/-- A loop that moves on has no more to answer for than before. -/
theorem PipelineWorld.Accounted.continues {f : Fleet} {w : PipelineWorld} (hsound : w.Sound f)
    (h : w.Accounted f) {v : String} {b : ProtectedWorker}
    (hcont : Continues (f.optsOf v).maxAttempts (w.worker v) b) (l : Lease Nat String)
    (hl : b.lease = some l) (ht : b.phase.tried = true) : w.Answered f l := by
  rcases hcont.lease with ⟨heq,_⟩ | ⟨hnone,_⟩
  · have hlv : (w.worker v).lease = some l := heq.symm.trans hl
    rcases hcont.tried ht with htried | hzero
    · exact h.tried v l hlv htried
    · have hholder := (hsound.table.own v l hlv).1
      rw [← hholder] at hzero
      exact .inr (.inr hzero)
  · rw [hnone] at hl
    cases hl

private theorem PipelineWorld.Accounted.claimed {f : Fleet} {w w' : PipelineWorld}
    (h : w.Accounted f)
    {v : String} {t : Int} {old : OutboxRow EventPayload} {event : ClaimedEvent}
    {b : ProtectedWorker} (hrows : w'.rows = updateWhere (·.id == old.id) (·.claim v t) w.rows)
    (hlog : w'.log = .granted (old.lease v t) w.clock::w.log) (hsends : w'.sends = w.sends)
    (hrejected : w'.rejected = w.rejected)
    (hworker : w'.worker = Function.update w.worker v b)
    (hb : b.phase = .claimed event ∧ b.lease = some (old.lease v t) ∨
      b = (w.worker v).halt) : w'.Accounted f := by
  have hsame : ∀ l, w.Answered f l → w'.Answered f l := fun l ha =>
    ha.mono (fun s hs => hsends ▸ hs) fun k hk => hrejected ▸ hk
  constructor
  · intro u l hl ht
    by_cases hu : u = v
    · subst hu
      rw [hworker,Function.update_self] at hl ht
      rcases hb with ⟨hp,_⟩ | rfl
      · rw [hp] at ht
        cases ht
      · cases hl
    · rw [hworker,Function.update_of_ne hu] at hl ht
      exact hsame l (h.tried u l hl ht)
  · intro row hrow hs
    rw [hrows] at hrow
    obtain ⟨r,hr,rfl⟩ := mem_updateWhere.mp hrow
    by_cases hid : r.id = old.id
    · simp [hid,OutboxRow.claim] at hs
    · simp only [beq_iff_eq,hid,if_false] at hs ⊢
      obtain ⟨hmax,l,hl,ha⟩ := h.failed r hr hs
      refine ⟨hmax,l,?_,hsame l ha⟩
      rw [hlog,leasesOf_granted_ne]
      · exact hl
      · exact hid

private theorem PipelineWorld.Accounted.marked {f : Fleet} {w w' : PipelineWorld}
    (hsound : w.Sound f)
    (h : w.Accounted f) {v : String} {now : Int}
    {event : ClaimedEvent} {g : OutboxRow EventPayload → OutboxRow EventPayload}
    {b : ProtectedWorker}
    (hg : (w.worker v).phase = .markingPublished event ∧ g = (·.publish now) ∨
      (∃ circuitOpen, (w.worker v).phase = .markingFailed event circuitOpen) ∧
        g = OutboxRow.fail)
    (hrows : w'.rows = updateLocked w.rows event.id v g)
    (hlog : w'.log = (w.worker v).lease.toList.map .settled ++ w.log)
    (hsends : w'.sends = w.sends) (hrejected : w'.rejected = w.rejected)
    (hworker : w'.worker = Function.update w.worker v b)
    (hcont : Continues (f.optsOf v).maxAttempts (w.worker v) b) : w'.Accounted f := by
  have hsame : ∀ l, w.Answered f l → w'.Answered f l := fun l ha =>
    ha.mono (fun s hs => hsends ▸ hs) fun k hk => hrejected ▸ hk
  have hevent : (w.worker v).phase.event = some event := by
    rcases hg with ⟨hp,_⟩ | ⟨⟨_,hp⟩,_⟩ <;> rw [hp] <;> rfl
  have htried : (w.worker v).phase.tried = true := by
    rcases hg with ⟨hp,_⟩ | ⟨⟨_,hp⟩,_⟩ <;> rw [hp] <;> rfl
  obtain ⟨l,hl,hitem⟩ := hsound.carried v event hevent
  have hleases : ∀ i, leasesOf i w'.log = leasesOf i w.log := by
    intro i
    rw [hlog,hl]
    rfl
  constructor
  · intro u k hk ht
    by_cases hu : u = v
    · subst hu
      rw [hworker,Function.update_self] at hk ht
      exact hsame k (h.continues hsound hcont k hk ht)
    · rw [hworker,Function.update_of_ne hu] at hk ht
      exact hsame k (h.tried u k hk ht)
  · intro row hrow hs
    rw [hrows] at hrow
    obtain ⟨r,hr,rfl⟩ := mem_updateWhere.mp hrow
    split at hs
    · rename_i hhit
      simp only [Bool.and_eq_true,beq_iff_eq] at hhit
      obtain ⟨hid,hby⟩ := hhit
      rw [if_pos (by simp [hid,hby])]
      have hnew := hsound.table.newest (show w.state.current v = some l from hl) hr
        (hid.trans hitem.symm) hby
      rcases hg with ⟨_,rfl⟩ | ⟨_,rfl⟩
      · cases hs
      · refine ⟨?_,l,?_,hsame l (h.tried v l hl htried)⟩
        · by_contra hlt
          simp only [OutboxRow.fail] at hs hlt
          rw [if_neg hlt] at hs
          cases hs
        · exact (congrArg List.head? (hleases r.id)).trans hnew
    · rw [if_neg ‹_›]
      obtain ⟨hm,k,hk,ha⟩ := h.failed r hr hs
      refine ⟨hm,k,?_,hsame k ha⟩
      rw [hleases]
      exact hk

theorem PipelineWorld.Accounted.step {f : Fleet} {w w' : PipelineWorld} {e : PipelineEvent}
    (hsound : w.Sound f) (h : w.Accounted f)
    (hs : pipelineStep f w e = some w') : w'.Accounted f := by
  cases pipelineStep_move hs with
  | claimed old event b n _ _ _ _ _ _ hrows hlog hsends hrejected _ hworker hb =>
    exact h.claimed hrows hlog hsends hrejected hworker hb
  | marked event g b hg hrows hlog hsends hrejected _ hworker hcont =>
    exact PipelineWorld.Accounted.marked hsound h hg hrows hlog hsends hrejected hworker hcont
  | sent v event attempt b key hevent _ _ hrows hlog hrejected _ hsends hworker hlease =>
    obtain ⟨l,hl,hitem⟩ := hsound.carried v event hevent
    apply h.frame hrows hlog _ hworker
    · intro k hk _
      rw [hlease,hl] at hk
      cases hk
      rw [hl] at hsends
      exact .inl ⟨_,hsends ▸ List.mem_cons_self,hitem.symm,rfl⟩
    · intro k ha
      exact ha.mono (fun s hs => hsends ▸ List.mem_cons_of_mem _ hs) fun k hk => hrejected ▸ hk
  | turnedAway event b hp hrows hlog hsends hrejected _ hworker hlease =>
    apply h.frame hrows hlog _ hworker
    · intro k hk _
      rw [hlease] at hk
      rw [hk] at hrejected
      exact .inr (.inl (hrejected ▸ List.mem_cons_self))
    · intro k ha
      exact ha.mono (fun s hs => hsends ▸ hs)
        fun k hk => hrejected ▸ List.mem_append_right _ hk
  | moved v b hsame _ hworker hcont =>
    have hmono : ∀ l, w.Answered f l → w'.Answered f l := fun l ha =>
      ha.mono (fun s hs => hsame.sends ▸ hs) fun k hk => hsame.rejected ▸ hk
    apply h.frame hsame.rows hsame.log hmono hworker
    exact fun l hl ht => hmono l (h.continues hsound hcont l hl ht)

/-- A failed event has used up its attempts, and its newest claim either sent a
notification or was turned away by the breaker, unless it was not to attempt anything. -/
theorem failed_answered {f : Fleet} {w w' : PipelineWorld} (h : w.Fresh)
    {es : List PipelineEvent}
    (hrun : run (pipelineStep f) w es = some w') :
    ∀ row ∈ w'.rows, row.status = .failed → w'.GivenUp f row := by
  let inv := fun s : PipelineWorld => s.Sound f ∧ s.Accounted f
  have hinit : inv w := by
    refine ⟨PipelineWorld.sound_of_fresh h,?_,?_⟩
    · intro v l hl
      rw [h.2.1] at hl
      cases hl
    · intro row hrow hs
      rw [(h.2.2.2.2.2.2.2.2 row hrow).1] at hs
      cases hs
  have hinv : inv w' := run_invariant
    (fun s e t hs hstep => ⟨hs.1.step hstep,hs.2.step hs.1 hstep⟩) hinit hrun
  exact hinv.2.failed

/-- Two events with one attempt each, and breakers that open at the first failure. -/
def twoNotifications : PipelineWorld where
  rows := [
    { id := 1, publicId := "p", eventType := "OrderConfirmed", maxAttempts := 1
      payload := ⟨"o","c","x@example.com",100⟩ },
    { id := 2, publicId := "q", eventType := "OrderConfirmed", maxAttempts := 1
      payload := ⟨"r","d","y@example.com",100⟩ }]
  clock := 0

def hastyFleet : Fleet where
  opts _ := { failureThreshold := 1, maxAttempts := 1 }

/-- The first event fails at the provider and opens the breaker, the second one fails at
the breaker. -/
def circuitOpenFailure : List PipelineEvent :=
  [.claim "a" 0 (fun _ => false) .acknowledged, .enter "a", .settle 0 .transientError 5,
    .resume "a", .record "a" .acknowledged, .mark "a" 0 .acknowledged,
    .claim "a" 0 (fun _ => false) .acknowledged, .enter "a", .record "a" .acknowledged,
    .mark "a" 0 .acknowledged]

theorem twoNotifications_fresh : twoNotifications.Fresh := by
  refine ⟨by decide,rfl,rfl,rfl,rfl,rfl,rfl,rfl,?_⟩
  simp [twoNotifications]

theorem circuitOpenFailure_unsent : ∃ w,
    run (pipelineStep hastyFleet) twoNotifications circuitOpenFailure = some w ∧
      w.rows.map (fun r => (r.id,r.status)) = [(1,.failed),(2,.failed)] ∧ w.sendsFor 2 = 0 := by
  have hobs : (run (pipelineStep hastyFleet) twoNotifications circuitOpenFailure).map
      (fun w => (w.rows.map (fun r => (r.id,r.status)),w.sendsFor 2)) =
      some ([(1,.failed),(2,.failed)],0) := by decide
  obtain ⟨w,hw,hpair⟩ := Option.map_eq_some_iff.mp hobs
  obtain ⟨hrows,hsends⟩ := Prod.mk.inj hpair
  exact ⟨w,hw,hrows,hsends⟩

theorem circuitOpenFailure_answered : ∃ w,
    run (pipelineStep hastyFleet) twoNotifications circuitOpenFailure = some w ∧
      ∀ row ∈ w.rows, row.status = .failed → w.GivenUp hastyFleet row := by
  obtain ⟨w,hw⟩ := Option.isSome_iff_exists.mp (show
    (run (pipelineStep hastyFleet) twoNotifications circuitOpenFailure).isSome = true
    by decide)
  exact ⟨w,hw,failed_answered twoNotifications_fresh hw⟩

end SystemsLab.Capstone
