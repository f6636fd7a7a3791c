import SystemsLab.Resilience.Composed
import Mathlib.Tactic.Linarith

/-!
# What an outage costs the downstream

While the downstream is down, the breaker lets calls through up to its threshold, then those that
are already under way, and then one for each cooldown that has passed. Each of them makes as many
attempts as the retry loop allows, and the calls that are turned away make none. The clock does not
go back.
-/

namespace SystemsLab.Resilience

variable {opts : ComposedOptions} {w w' : ComposedWorld} {e : ComposedEvent}

section Breaker

variable {breakerOpts : CircuitBreakerOptions} {b b' : World} {id : Nat} {throws : Throws}

private theorem breakerStep_execute (h : breakerStep breakerOpts b (.execute id throws) = some b') :
    b.call id = .notStarted ∧ b' = b.book id (executeEnter breakerOpts throws b.clock b.breaker) := by
  simp only [breakerStep] at h
  split at h
  next hid => exact ⟨hid,(Option.some.inj h).symm⟩
  · cases h

private theorem breakerStep_reject (h : breakerStep breakerOpts b (.reject id) = some b') :
    ∃ seg, b' = b.book id seg ∧ seg.phase = .done ∧
      (seg = probeRejected b.clock b.breaker ∨
        seg = closedRejected breakerOpts b.clock b.breaker) := by
  simp only [breakerStep] at h
  split at h
  · cases h
    exact ⟨_,rfl,rfl,.inl rfl⟩
  · cases h
    refine ⟨_,rfl,?_,.inr rfl⟩
    unfold closedRejected
    dsimp only
    split <;> rfl
  · cases h

private theorem breakerStep_resolve (h : breakerStep breakerOpts b (.resolve id throws) = some b') :
    ∃ seg, b' = b.book id seg ∧ seg.phase = .done := by
  simp only [breakerStep] at h
  split at h
  · cases h
    refine ⟨_,rfl,?_⟩
    unfold probeResolved
    dsimp only
    split <;> rfl
  · cases h
    exact ⟨_,rfl,rfl⟩
  · cases h

private theorem book_call_self (b : World) (id : Nat) (seg : Segment) :
    (b.book id seg).call id = seg.phase := by
  show Function.update b.call id seg.phase id = seg.phase
  rw [Function.update_self]

private theorem book_call_of_ne (b : World) {id i : Nat} (hi : i ≠ id) (seg : Segment) :
    (b.book id seg).call i = b.call i := by
  show Function.update b.call id seg.phase i = b.call i
  rw [Function.update_of_ne hi]

private theorem breakerStep_probeSound (hthreshold : 1 ≤ breakerOpts.failureThreshold)
    (h : ProbeSound breakerOpts b) {e : Event} (hquiet : Quiet b (b.clock,e))
    (hstep : breakerStep breakerOpts b e = some b') : ProbeSound breakerOpts b' :=
  h.step hthreshold hquiet hstep

end Breaker

theorem attempted_cases {id attempt : Nat} {outcome : Except CallError Unit}
    (h : w.attempted opts id attempt outcome = some w') :
    (∃ breaker, outcome = .ok () ∧
      breakerStep opts.breaker w.breaker (.resolve id logsOnly) = some breaker ∧
      w' = { w with breaker, calls := w.setPhase id (.returned attempt) }) ∨
    (∃ err breaker, outcome = .error err ∧
      breakerStep opts.breaker w.breaker (.reject id) = some breaker ∧
      w' = { w with breaker, calls := w.setPhase id (.threw attempt err) }) ∨
    ∃ err, outcome = .error err ∧ attempt < opts.maxAttempts ∧
      w' = { w with calls := w.setPhase id (.sleeping attempt) } := by
  unfold ComposedWorld.attempted at h
  split at h
  · obtain ⟨breaker,hstep,rfl⟩ := Option.map_eq_some_iff.mp h
    exact .inl ⟨breaker,rfl,hstep,rfl⟩
  next err =>
    dsimp only at h
    split at h
    · obtain ⟨breaker,hstep,rfl⟩ := Option.map_eq_some_iff.mp h
      exact .inr (.inl ⟨err,breaker,rfl,hstep,rfl⟩)
    next hgo =>
      cases h
      have hremain : attempt < opts.maxAttempts := by
        by_contra hlast
        simp [hlast] at hgo
      exact .inr (.inr ⟨err,rfl,hremain,rfl⟩)

theorem composedStep_cases (h : composedStep opts w e = some w') :
    (∃ id label rolls breaker, e = .makeCall id label rolls ∧
      breakerStep opts.breaker w.breaker (.execute id logsOnly) = some breaker ∧
      ((breaker.call id).invoked = true ∧
        w' = { w with
          breaker
          callLog := w.log label
          calls := w.calls ++ [⟨id,label,w.race opts label 1 rolls⟩] } ∨
        (breaker.call id).invoked = false ∧ w' = { w with breaker })) ∨
    (∃ call ∈ w.calls, ∃ attempt dueAt outcome, call.phase = .racing attempt dueAt outcome ∧
      w.attempted opts call.id attempt outcome = some w') ∨
    (∃ call ∈ w.calls, ∃ attempt rolls, call.phase = .sleeping attempt ∧
      w' = { w with
        callLog := w.log call.label
        calls := w.setPhase call.id (w.race opts call.label (attempt + 1) rolls) }) ∨
    (∃ health, e = .setHealth health ∧ w' = { w with health }) ∨
    ∃ ms : Nat, w' = { w with breaker := { w.breaker with clock := w.breaker.clock + ms } } := by
  cases e with
  | makeCall id label rolls =>
    simp only [composedStep] at h
    split at h
    · obtain ⟨breaker,hstep,hw⟩ := Option.map_eq_some_iff.mp h
      refine .inl ⟨id,label,rolls,breaker,rfl,hstep,?_⟩
      split at hw
      next hinvoked => exact .inl ⟨hinvoked,hw.symm⟩
      next hrejected => exact .inr ⟨by simpa using hrejected,hw.symm⟩
    · cases h
  | settle id =>
    simp only [composedStep] at h
    split at h
    next call label attempt dueAt outcome hrow =>
      obtain ⟨hmem,hid⟩ := rowAt_some hrow
      dsimp only at hid
      subst hid
      split at h
      · exact .inr (.inl ⟨_,hmem,attempt,dueAt,outcome,rfl,h⟩)
      · cases h
    · cases h
  | wake id rolls =>
    simp only [composedStep] at h
    split at h
    · split at h
      next call label attempt hrow =>
        obtain ⟨hmem,hid⟩ := rowAt_some hrow
        dsimp only at hid
        subst hid
        cases h
        exact .inr (.inr (.inl ⟨_,hmem,attempt,rolls,rfl,rfl⟩))
      · cases h
    · cases h
  | setHealth health =>
    cases h
    exact .inr (.inr (.inr (.inl ⟨health,rfl,rfl⟩)))
  | advance ms =>
    cases h
    exact .inr (.inr (.inr (.inr ⟨ms,rfl⟩)))

/-- The attempts made, with the next one if it is certain to be made. -/
def AttemptPhase.spent : AttemptPhase → Nat
  | .sleeping attempt => attempt + 1
  | phase => phase.attempts

/-- The breaker and the retry loops agree on who is under way, and the downstream has been called
once for each attempt. -/
structure ComposedWorld.Sound (opts : ComposedOptions) (w : ComposedWorld) : Prop where
  ids : (w.calls.map ComposedCall.id).Nodup
  started : ∀ call ∈ w.calls, w.breaker.call call.id ≠ .notStarted
  busy : ∀ call ∈ w.calls, call.phase.busy = (w.breaker.call call.id).invoked
  spent : ∀ call ∈ w.calls, call.phase.spent ≤ opts.maxAttempts
  logged : (w.callLog.length : Int) = (w.calls.map fun call => (call.phase.attempts : Int)).sum

namespace ComposedWorld.Sound

variable {call : ComposedCall} {phase : AttemptPhase} {breaker : World}

theorem start (hfresh : w.Fresh) : w.Sound opts := by
  refine ⟨?_,?_,?_,?_,?_⟩
  all_goals rw [hfresh.calls]
  · exact .nil
  · nofun
  · nofun
  · nofun
  · rw [hfresh.callLog]
    rfl

private theorem attempts_le_spent (phase : AttemptPhase) : phase.attempts ≤ phase.spent := by
  cases phase with
  | sleeping attempt => exact Nat.le_succ attempt
  | _ => exact Nat.le_refl _

private theorem callLog_le (h : w.Sound opts) :
    w.callLog.length ≤ opts.maxAttempts * w.calls.length := by
  have hle : ∀ calls : List ComposedCall, (∀ call ∈ calls, call.phase.spent ≤ opts.maxAttempts) →
      (calls.map fun call => (call.phase.attempts : Int)).sum ≤ opts.maxAttempts * calls.length := by
    intro calls
    induction calls with
    | nil => simp
    | cons call calls ih =>
      intro hspent
      obtain ⟨hcall,hrest⟩ := List.forall_mem_cons.mp hspent
      have hattempts := attempts_le_spent call.phase
      have hsum := ih hrest
      rw [List.map_cons,List.sum_cons,List.length_cons]
      push_cast
      rw [Int.mul_add]
      omega
  have hlogged := h.logged
  have hbound := hle w.calls h.spent
  exact_mod_cast hlogged ▸ hbound

private theorem admitted (h : w.Sound opts) {id : Nat} {label : String} {rolls : Rolls}
    (hstep : breakerStep opts.breaker w.breaker (.execute id logsOnly) = some breaker)
    (hinvoked : (breaker.call id).invoked = true) :
    ComposedWorld.Sound opts { w with
      breaker
      callLog := w.log label
      calls := w.calls ++ [⟨id,label,w.race opts label 1 rolls⟩] } := by
  obtain ⟨hid,rfl⟩ := breakerStep_execute hstep
  have hfresh : id ∉ w.calls.map ComposedCall.id := by
    intro hmem
    obtain ⟨call,hcall,rfl⟩ := List.mem_map.mp hmem
    exact h.started call hcall hid
  have hother : ∀ call ∈ w.calls, call.id ≠ id := by
    rintro call hcall rfl
    exact hfresh (List.mem_map_of_mem hcall)
  refine ⟨nodup_append_fresh h.ids hfresh,?_,?_,?_,?_⟩
  · apply forall_append_next
    · intro call hcall
      rw [book_call_of_ne _ (hother call hcall)]
      exact h.started call hcall
    · intro hstart
      rw [hstart] at hinvoked
      cases hinvoked
  · apply forall_append_next
    · intro call hcall
      rw [book_call_of_ne _ (hother call hcall)]
      exact h.busy call hcall
    · exact hinvoked.symm
  · exact forall_append_next h.spent opts.positive
  · have hlogged := h.logged
    rw [log,List.length_append,List.map_append,List.sum_append,← hlogged]
    rfl

private theorem reject (h : w.Sound opts) {id : Nat}
    (hstep : breakerStep opts.breaker w.breaker (.execute id logsOnly) = some breaker) :
    ComposedWorld.Sound opts { w with breaker } := by
  obtain ⟨hid,rfl⟩ := breakerStep_execute hstep
  have hother : ∀ call ∈ w.calls, call.id ≠ id := by
    rintro call hcall rfl
    exact h.started call hcall hid
  refine ⟨h.ids,?_,?_,h.spent,h.logged⟩
  · intro call hcall
    rw [book_call_of_ne _ (hother call hcall)]
    exact h.started call hcall
  · intro call hcall
    rw [book_call_of_ne _ (hother call hcall)]
    exact h.busy call hcall

private theorem map_setPhase (id : Nat) (phase : AttemptPhase) :
    (w.setPhase id phase).map ComposedCall.id = w.calls.map ComposedCall.id :=
  map_updateWhere (f := fun c : ComposedCall => { c with phase }) ComposedCall.id (fun _ => rfl)
    w.calls

/-- What holds of the other calls and of the one that moves on holds of all. -/
theorem forall_setPhase {P : ComposedCall → Prop} {id : Nat}
    (hother : ∀ c ∈ w.calls, c.id ≠ id → P c) (hown : ∀ c ∈ w.calls, c.id = id → P { c with phase }) :
    ∀ c ∈ w.setPhase id phase, P c := by
  intro c hc
  obtain ⟨c',hc',rfl⟩ := List.mem_map.mp hc
  by_cases hid : c'.id = id
  · rw [if_pos (by simpa using hid)]
    exact hown c' hc' hid
  · rw [if_neg (by simpa using hid)]
    exact hother c' hc' hid

private theorem sum_setPhase (h : w.Sound opts) (hcall : call ∈ w.calls) (phase : AttemptPhase) :
    ((w.setPhase call.id phase).map fun c => (c.phase.attempts : Int)).sum =
      w.callLog.length - call.phase.attempts + phase.attempts := by
  have hsum := sum_updateWhere_key (f := fun c : ComposedCall => { c with phase })
    (fun c => (c.phase.attempts : Int)) h.ids hcall
  rw [← h.logged] at hsum
  exact hsum

private theorem finish (h : w.Sound opts) (hcall : call ∈ w.calls) {seg : Segment}
    (hdone : seg.phase = .done) (hbusy : phase.busy = false)
    (hattempts : phase.attempts = call.phase.attempts) (hspent : phase.spent = phase.attempts) :
    ComposedWorld.Sound opts { w with
      breaker := w.breaker.book call.id seg
      calls := w.setPhase call.id phase } := by
  refine ⟨?_,?_,?_,?_,?_⟩
  · rw [map_setPhase]
    exact h.ids
  · apply forall_setPhase
    · intro c hc hid
      rw [book_call_of_ne _ hid]
      exact h.started c hc
    · intro c _ hid
      dsimp only
      rw [hid,book_call_self,hdone]
      nofun
  · apply forall_setPhase
    · intro c hc hid
      rw [book_call_of_ne _ hid]
      exact h.busy c hc
    · intro c _ hid
      dsimp only
      rw [hid,book_call_self,hdone,hbusy]
      rfl
  · apply forall_setPhase
    · exact fun c hc _ => h.spent c hc
    · intro c _ _
      have hle := Nat.le_trans (attempts_le_spent call.phase) (h.spent call hcall)
      show phase.spent ≤ _
      rw [hspent,hattempts]
      exact hle
  · rw [h.sum_setPhase hcall,hattempts]
    dsimp only
    omega

private theorem goOn (h : w.Sound opts) (hcall : call ∈ w.calls) {callLog : List LoggedCall}
    (hwas : call.phase.busy = true) (hbusy : phase.busy = true)
    (hspent : phase.spent ≤ opts.maxAttempts)
    (hlog : (callLog.length : Int) = w.callLog.length - call.phase.attempts + phase.attempts) :
    ComposedWorld.Sound opts { w with callLog, calls := w.setPhase call.id phase } := by
  refine ⟨?_,?_,?_,?_,?_⟩
  · rw [map_setPhase]
    exact h.ids
  · exact forall_setPhase (fun c hc _ => h.started c hc) fun c hc _ => h.started c hc
  · apply forall_setPhase
    · exact fun c hc _ => h.busy c hc
    · intro c hc hid
      obtain rfl := eq_of_key_eq h.ids hc hcall hid
      rw [← h.busy c hc,hwas]
      exact hbusy
  · exact forall_setPhase (fun c hc _ => h.spent c hc) fun _ _ _ => hspent
  · rw [h.sum_setPhase hcall]
    exact hlog

theorem step (h : w.Sound opts) (hstep : composedStep opts w e = some w') : w'.Sound opts := by
  rcases composedStep_cases hstep with ⟨id,label,rolls,breaker,_,hb,hcase⟩ |
    ⟨call,hcall,attempt,dueAt,outcome,hphase,hsettled⟩ | ⟨call,hcall,attempt,rolls,hphase,rfl⟩ |
    ⟨health,_,rfl⟩ | ⟨ms,rfl⟩
  · rcases hcase with ⟨hinvoked,rfl⟩ | ⟨_,rfl⟩
    · exact h.admitted hb hinvoked
    · exact h.reject hb
  · have hattempts : call.phase.attempts = attempt := by rw [hphase]; rfl
    rcases attempted_cases hsettled with ⟨breaker,_,hb,rfl⟩ | ⟨err,breaker,_,hb,rfl⟩ |
      ⟨err,_,hremain,rfl⟩
    · obtain ⟨seg,rfl,hdone⟩ := breakerStep_resolve hb
      exact h.finish hcall hdone rfl hattempts.symm rfl
    · obtain ⟨seg,rfl,hdone,_⟩ := breakerStep_reject hb
      exact h.finish hcall hdone rfl hattempts.symm rfl
    · apply h.goOn hcall
      · rw [hphase]
        rfl
      · rfl
      · exact hremain
      · rw [hattempts]
        show (w.callLog.length : Int) = w.callLog.length - attempt + attempt
        omega
  · have hattempts : call.phase.attempts = attempt := by rw [hphase]; rfl
    have hspent := h.spent call hcall
    apply h.goOn hcall
    · rw [hphase]
      rfl
    · rfl
    · rw [hphase] at hspent
      exact hspent
    · rw [hattempts,log,List.length_append]
      show ((w.callLog.length + 1 : Nat) : Int) = w.callLog.length - attempt + (attempt + 1 : Nat)
      omega
  · exact ⟨h.ids,h.started,h.busy,h.spent,h.logged⟩
  · exact ⟨h.ids,h.started,h.busy,h.spent,h.logged⟩

theorem run {es : List ComposedEvent} (h : w.Sound opts)
    (hrun : run (composedStep opts) w es = some w') : w'.Sound opts :=
  run_invariant (fun _ _ _ hw hstep => hw.step hstep) h hrun

end ComposedWorld.Sound

/-- No call can be answered in time. -/
def ComposedOptions.Down (opts : ComposedOptions) : DownstreamHealth → Prop
  | .downFailFast => True
  | .downHang => opts.timeoutMs ≤ opts.downstream.hangMs
  | _ => False

instance (opts : ComposedOptions) : ∀ health, Decidable (opts.Down health)
  | .healthy => isFalse id
  | .degraded => isFalse id
  | .downFailFast => isTrue trivial
  | .downHang => inferInstanceAs (Decidable (_ ≤ _))

private theorem withTimeout_down {health : DownstreamHealth} (h : opts.Down health) (label : String)
    (rolls : Rolls) : ∃ err,
      (withTimeout opts.timeoutMs (settleGeneric opts.downstream health label rolls)).2 =
        .error err := by
  cases health with
  | healthy => cases h
  | degraded => cases h
  | downFailFast =>
    unfold withTimeout
    split
    · exact ⟨_,rfl⟩
    · exact ⟨_,rfl⟩
  | downHang =>
    have hlate : ¬ opts.downstream.hangMs < opts.timeoutMs := Nat.not_lt.mpr h
    exact ⟨_,congrArg Prod.snd (if_neg hlate)⟩

/-- The outage goes on, and no more than `callers` calls are under way at a time. -/
def ComposedOptions.Outage (opts : ComposedOptions) (callers : Nat) (w : ComposedWorld) :
    ComposedEvent → Prop
  | .makeCall _ _ _ => w.inFlight < callers
  | .setHealth health => opts.Down health
  | _ => True

instance (opts : ComposedOptions) (callers : Nat) (w : ComposedWorld) :
    ∀ e, Decidable (opts.Outage callers w e)
  | .makeCall _ _ _ => inferInstanceAs (Decidable (_ < _))
  | .setHealth _ => inferInstanceAs (Decidable (opts.Down _))
  | .settle _ => isTrue trivial
  | .wake _ _ => isTrue trivial
  | .advance _ => isTrue trivial

/-- The breaker has never been closed again. `probes` of the calls were let through by a breaker
that had cooled down. -/
structure ComposedWorld.Degraded (opts : ComposedOptions) (callers : Nat) (since : Int)
    (w : ComposedWorld) : Prop where
  sound : w.Sound opts
  probe : ProbeSound opts.breaker w.breaker
  down : opts.Down w.health
  failing : ∀ call ∈ w.calls, ∀ attempt dueAt outcome,
    call.phase = .racing attempt dueAt outcome → ∃ err, outcome = .error err
  few : w.inFlight ≤ callers
  closed : w.breaker.breaker.state = .CLOSED →
    w.calls.length = w.breaker.breaker.consecutiveFailures + w.inFlight
  tripped : w.breaker.breaker.state ≠ .CLOSED → ∃ probes : Nat,
    w.calls.length + 1 ≤ opts.breaker.failureThreshold + callers + probes ∧
      probes * opts.breaker.cooldownMs ≤ w.breaker.clock - since ∧
      (w.breaker.breaker.state = .OPEN →
        probes * opts.breaker.cooldownMs ≤ w.breaker.breaker.openedAt - since)
  past : since ≤ w.breaker.clock

section Segments

variable {breakerOpts : CircuitBreakerOptions} {now : Int} {b : CircuitBreaker}

/-- A closed breaker lets every call through, an open one the first call after the cooldown. -/
theorem executeEnter_cases (breakerOpts : CircuitBreakerOptions) (now : Int)
    (hflag : b.state = .HALF_OPEN → b.halfOpenProbeInFlight = true) :
    let seg := executeEnter breakerOpts logsOnly now b
    (b.state = .CLOSED ∧ seg.breaker = b ∧ seg.phase = .attempting) ∨
    (b.state ≠ .CLOSED ∧ seg.breaker.state ≠ .CLOSED ∧ seg.phase = .done ∧
      (seg.breaker.state = .OPEN → seg.breaker = b)) ∨
    (b.state = .OPEN ∧ breakerOpts.cooldownMs ≤ now - b.openedAt ∧ seg.phase = .probing ∧
      seg.breaker.state = .HALF_OPEN) := by
  unfold executeEnter
  cases hstate : b.state with
  | CLOSED => exact .inl ⟨rfl,rfl,rfl⟩
  | HALF_OPEN =>
    have hseg : enterHalfOpen now b = ⟨b,.done,[]⟩ := if_pos (hflag hstate)
    dsimp only
    rw [hseg]
    exact .inr (.inl ⟨nofun,by rw [hstate]; nofun,rfl,fun _ => rfl⟩)
  | OPEN =>
    dsimp only
    split
    next hcooled =>
      rw [if_neg (by decide)]
      unfold enterHalfOpen
      split
      · exact .inr (.inl ⟨nofun,nofun,rfl,nofun⟩)
      · exact .inr (.inr ⟨rfl,hcooled,rfl,rfl⟩)
    · exact .inr (.inl ⟨nofun,by rw [hstate]; nofun,rfl,fun _ => rfl⟩)

theorem rejected_cases {seg : Segment}
    (h : seg = probeRejected now b ∨ seg = closedRejected breakerOpts now b) :
    (seg.breaker.state = .OPEN ∧ seg.breaker.openedAt = now) ∨
    (seg.breaker.state = b.state ∧ seg.breaker.openedAt = b.openedAt ∧
      seg.breaker.consecutiveFailures = b.consecutiveFailures + 1) := by
  rcases h with rfl | rfl
  · exact .inl ⟨rfl,rfl⟩
  · unfold closedRejected
    dsimp only
    split
    · exact .inl ⟨rfl,rfl⟩
    · exact .inr ⟨rfl,rfl,rfl⟩

end Segments

namespace ComposedWorld.Degraded

variable {callers : Nat} {since : Int} {call : ComposedCall} {phase : AttemptPhase}

private theorem inFlight_setPhase (h : w.Sound opts) (hcall : call ∈ w.calls)
    (phase : AttemptPhase) :
    (w.setPhase call.id phase).countP (·.phase.busy) + (if call.phase.busy then 1 else 0) =
      w.inFlight + if phase.busy then 1 else 0 :=
  countP_updateWhere_key (f := fun c : ComposedCall => { c with phase }) (·.phase.busy) h.ids hcall

private theorem length_setPhase (id : Nat) (phase : AttemptPhase) :
    (w.setPhase id phase).length = w.calls.length := List.length_map _

private theorem turnedAway (h : w.Degraded opts callers since) {id : Nat} {breaker : World}
    (hprobe : ProbeSound opts.breaker breaker)
    (hb : breakerStep opts.breaker w.breaker (.execute id logsOnly) = some breaker)
    (hrejected : (breaker.call id).invoked = false) :
    ComposedWorld.Degraded opts callers since { w with breaker } := by
  have hsound := h.sound.reject hb
  obtain ⟨_,rfl⟩ := breakerStep_execute hb
  rw [book_call_self] at hrejected
  have hflag := fun hhalf => h.probe.flagged.mpr (h.probe.probed hhalf)
  rcases executeEnter_cases opts.breaker w.breaker.clock hflag with
    ⟨_,_,hphase⟩ | ⟨hnot,hstill,_,hsame⟩ | ⟨_,_,hphase,_⟩
  · rw [hphase] at hrejected
    cases hrejected
  · refine ⟨hsound,hprobe,h.down,h.failing,h.few,fun hclosed => absurd hclosed hstill,?_,h.past⟩
    intro _
    obtain ⟨probes,hcalls,hclock,hopened⟩ := h.tripped hnot
    refine ⟨probes,hcalls,hclock,fun hopen => ?_⟩
    change (executeEnter opts.breaker logsOnly w.breaker.clock w.breaker.breaker).breaker.state =
      .OPEN at hopen
    have hbreaker := hsame hopen
    show _ ≤ (executeEnter opts.breaker logsOnly w.breaker.clock
      w.breaker.breaker).breaker.openedAt - since
    rw [hbreaker] at hopen ⊢
    exact hopened hopen
  · rw [hphase] at hrejected
    cases hrejected

/-- A call is let through below the threshold, or after another cooldown. -/
theorem letThrough (h : w.Degraded opts callers since) {id : Nat} {label : String} {rolls : Rolls}
    {breaker : World} (hcallers : w.inFlight < callers) (hprobe : ProbeSound opts.breaker breaker)
    (hb : breakerStep opts.breaker w.breaker (.execute id logsOnly) = some breaker)
    (hinvoked : (breaker.call id).invoked = true) :
    ComposedWorld.Degraded opts callers since { w with
      breaker
      callLog := w.log label
      calls := w.calls ++ [⟨id,label,w.race opts label 1 rolls⟩] } := by
  let call : ComposedCall := ⟨id,label,w.race opts label 1 rolls⟩
  have hsound : ComposedWorld.Sound opts
      { w with breaker, callLog := w.log label, calls := w.calls ++ [call] } :=
    h.sound.admitted hb hinvoked
  obtain ⟨_,rfl⟩ := breakerStep_execute hb
  rw [book_call_self] at hinvoked
  have hfew : (w.calls ++ [call]).countP (·.phase.busy) = w.inFlight + 1 := by
    rw [List.countP_append]
    rfl
  have hfailing : ∀ c ∈ w.calls ++ [call], ∀ attempt dueAt outcome,
      c.phase = .racing attempt dueAt outcome → ∃ err, outcome = .error err := by
    apply forall_append_next h.failing
    rintro attempt dueAt outcome hracing
    cases hracing
    exact withTimeout_down h.down label rolls
  have hflag := fun hhalf => h.probe.flagged.mpr (h.probe.probed hhalf)
  rcases executeEnter_cases opts.breaker w.breaker.clock hflag with
    ⟨hclosed,hsame,_⟩ | ⟨_,_,hphase,_⟩ | ⟨hopen,hcooled,_,hhalf⟩
  · refine ⟨hsound,hprobe,h.down,hfailing,?_,?_,?_,h.past⟩
    · exact Nat.le_trans (Nat.le_of_eq hfew) hcallers
    · intro _
      have hcalls := h.closed hclosed
      show (w.calls ++ [call]).length = (executeEnter opts.breaker logsOnly w.breaker.clock
        w.breaker.breaker).breaker.consecutiveFailures + (w.calls ++ [call]).countP (·.phase.busy)
      rw [hsame,hfew,List.length_append,hcalls]
      rfl
    · intro hnot
      have hstill : (executeEnter opts.breaker logsOnly w.breaker.clock
          w.breaker.breaker).breaker.state = .CLOSED := by
        rw [hsame]
        exact hclosed
      exact absurd hstill hnot
  · rw [hphase] at hinvoked
    cases hinvoked
  · refine ⟨hsound,hprobe,h.down,hfailing,?_,?_,?_,h.past⟩
    · exact Nat.le_trans (Nat.le_of_eq hfew) hcallers
    · intro hclosed
      exact absurd (hhalf.symm.trans hclosed) (by decide)
    · intro _
      obtain ⟨probes,hcalls,_,hopened⟩ := h.tripped (by rw [hopen]; decide)
      have hbound := hopened hopen
      refine ⟨probes + 1,?_,?_,?_⟩
      · show (w.calls ++ [call]).length + 1 ≤ _
        rw [List.length_append,List.length_singleton]
        omega
      · show ((probes + 1 : Nat) : Int) * _ ≤ w.breaker.clock - since
        push_cast
        rw [Int.add_mul]
        omega
      · intro hopen'
        exact absurd (hhalf.symm.trans hopen') (by decide)

private theorem fails (h : w.Degraded opts callers since) (hcall : call ∈ w.calls)
    {seg : Segment} {attempt : Nat} {err : CallError} (hwas : call.phase.busy = true)
    (hprobe : ProbeSound opts.breaker (w.breaker.book call.id seg))
    (hsound : ComposedWorld.Sound opts { w with
      breaker := w.breaker.book call.id seg
      calls := w.setPhase call.id (.threw attempt err) })
    (hseg : seg = probeRejected w.breaker.clock w.breaker.breaker ∨
      seg = closedRejected opts.breaker w.breaker.clock w.breaker.breaker) :
    ComposedWorld.Degraded opts callers since { w with
      breaker := w.breaker.book call.id seg
      calls := w.setPhase call.id (.threw attempt err) } := by
  have hfewer : (w.setPhase call.id (.threw attempt err)).countP (·.phase.busy) + 1 =
      w.inFlight := by
    have hcount := inFlight_setPhase h.sound hcall (.threw attempt err)
    rw [hwas,if_pos rfl] at hcount
    exact hcount
  have hfew := h.few
  refine ⟨hsound,hprobe,h.down,?_,?_,?_,?_,h.past⟩
  · apply ComposedWorld.Sound.forall_setPhase
    · exact fun c hc _ => h.failing c hc
    · intro c _ _ _ _ _ hracing
      cases hracing
  · show (w.setPhase call.id (.threw attempt err)).countP (·.phase.busy) ≤ callers
    omega
  · intro hclosed
    change seg.breaker.state = .CLOSED at hclosed
    rcases rejected_cases hseg with ⟨hopen,_⟩ | ⟨hstate,_,hcounted⟩
    · rw [hopen] at hclosed
      cases hclosed
    · have hcalls := h.closed (hstate ▸ hclosed)
      show (w.setPhase call.id (.threw attempt err)).length = seg.breaker.consecutiveFailures +
        (w.setPhase call.id (.threw attempt err)).countP (·.phase.busy)
      rw [length_setPhase,hcounted]
      omega
  · intro hnot
    have hlength := length_setPhase (w := w) call.id (.threw attempt err)
    have hprobes : ∃ probes : Nat,
        w.calls.length + 1 ≤ opts.breaker.failureThreshold + callers + probes ∧
          probes * opts.breaker.cooldownMs ≤ w.breaker.clock - since ∧
          (w.breaker.breaker.state = .OPEN →
            probes * opts.breaker.cooldownMs ≤ w.breaker.breaker.openedAt - since) := by
      by_cases hwasClosed : w.breaker.breaker.state = .CLOSED
      · have hcalls := h.closed hwasClosed
        have hcounted := h.probe.counted hwasClosed
        have hpast := h.past
        refine ⟨0,by omega,by simp; omega,?_⟩
        intro hopen
        rw [hwasClosed] at hopen
        cases hopen
      · exact h.tripped hwasClosed
    obtain ⟨probes,hcalls,hclock,hopened⟩ := hprobes
    refine ⟨probes,by rw [hlength]; exact hcalls,hclock,?_⟩
    intro hopen
    change seg.breaker.state = .OPEN at hopen
    show _ ≤ seg.breaker.openedAt - since
    rcases rejected_cases hseg with ⟨_,hat⟩ | ⟨hstate,hat,_⟩
    · rw [hat]
      exact hclock
    · rw [hat]
      exact hopened (hstate ▸ hopen)

private theorem retries (h : w.Degraded opts callers since) (hcall : call ∈ w.calls)
    {callLog : List LoggedCall} (hwas : call.phase.busy = true) (hbusy : phase.busy = true)
    (hsound : ComposedWorld.Sound opts { w with callLog, calls := w.setPhase call.id phase })
    (hfails : ∀ attempt dueAt outcome, phase = .racing attempt dueAt outcome →
      ∃ err, outcome = .error err) :
    ComposedWorld.Degraded opts callers since
      { w with callLog, calls := w.setPhase call.id phase } := by
  have hsame : (w.setPhase call.id phase).countP (·.phase.busy) = w.inFlight := by
    have hcount := inFlight_setPhase h.sound hcall phase
    rw [hwas,hbusy] at hcount
    omega
  have hlength := length_setPhase (w := w) call.id phase
  refine ⟨hsound,h.probe,h.down,?_,?_,?_,?_,h.past⟩
  · apply ComposedWorld.Sound.forall_setPhase
    · exact fun c hc _ => h.failing c hc
    · exact fun _ _ _ => hfails
  · exact Nat.le_trans (Nat.le_of_eq hsame) h.few
  · intro hclosed
    have hcalls := h.closed hclosed
    show (w.setPhase call.id phase).length = _ + (w.setPhase call.id phase).countP (·.phase.busy)
    rw [hlength,hsame]
    exact hcalls
  · intro hnot
    show ∃ probes : Nat, (w.setPhase call.id phase).length + 1 ≤ _ ∧ _
    rw [hlength]
    exact h.tripped hnot

theorem step (hthreshold : 1 ≤ opts.breaker.failureThreshold) (h : w.Degraded opts callers since)
    (hok : opts.Outage callers w e) (hstep : composedStep opts w e = some w') :
    w'.Degraded opts callers since := by
  have hsound := h.sound.step hstep
  rcases composedStep_cases hstep with ⟨id,label,rolls,breaker,rfl,hb,hcase⟩ |
    ⟨call,hcall,attempt,dueAt,outcome,hphase,hsettled⟩ | ⟨call,hcall,attempt,rolls,hphase,rfl⟩ |
    ⟨health,rfl,rfl⟩ | ⟨ms,rfl⟩
  · have hquiet : Quiet w.breaker (w.breaker.clock,.execute id logsOnly) := fun _ _ => rfl
    have hprobe := breakerStep_probeSound hthreshold h.probe hquiet hb
    rcases hcase with ⟨hinvoked,rfl⟩ | ⟨hrejected,rfl⟩
    · exact h.letThrough hok hprobe hb hinvoked
    · exact h.turnedAway hprobe hb hrejected
  · have hwas : call.phase.busy = true := by rw [hphase]; rfl
    obtain ⟨_,herror⟩ := h.failing call hcall attempt dueAt outcome hphase
    rcases attempted_cases hsettled with ⟨breaker,hresolved,_⟩ | ⟨err,breaker,_,hb,rfl⟩ |
      ⟨err,_,_,rfl⟩
    · rw [herror] at hresolved
      cases hresolved
    · have hquiet : Quiet w.breaker (w.breaker.clock,.reject call.id) := trivial
      have hprobe := breakerStep_probeSound hthreshold h.probe hquiet hb
      obtain ⟨seg,rfl,_,hseg⟩ := breakerStep_reject hb
      exact h.fails hcall hwas hprobe hsound hseg
    · exact h.retries hcall hwas rfl hsound nofun
  · have hwas : call.phase.busy = true := by rw [hphase]; rfl
    apply h.retries hcall hwas rfl hsound
    intro _ _ _ hracing
    cases hracing
    exact withTimeout_down h.down call.label rolls
  · exact ⟨hsound,h.probe,hok,h.failing,h.few,h.closed,h.tripped,h.past⟩
  · have hpast := h.past
    refine ⟨hsound,?_,h.down,h.failing,h.few,h.closed,?_,?_⟩
    · exact ⟨h.probe.single,h.probe.flagged,h.probe.probed,h.probe.counted⟩
    · intro hnot
      obtain ⟨probes,hcalls,hclock,hopened⟩ := h.tripped hnot
      refine ⟨probes,hcalls,?_,hopened⟩
      show _ ≤ w.breaker.clock + ms - since
      omega
    · show since ≤ w.breaker.clock + ms
      omega

theorem start (hthreshold : 1 ≤ opts.breaker.failureThreshold) (hfresh : w.Fresh)
    (hdown : opts.Down w.health) (callers : Nat) : w.Degraded opts callers w.breaker.clock := by
  have hclosed : w.breaker.breaker.state = .CLOSED := by
    rw [hfresh.breaker]
    rfl
  have hfew : w.inFlight = 0 := by
    rw [ComposedWorld.inFlight,hfresh.calls]
    rfl
  refine ⟨.start hfresh,?_,hdown,?_,?_,?_,?_,Int.le_refl _⟩
  · rw [hfresh.breaker]
    exact .initial hthreshold w.breaker.clock
  · rw [hfresh.calls]
    nofun
  · omega
  · intro _
    rw [hfew,hfresh.breaker,hfresh.calls]
    rfl
  · exact fun hnot => absurd hclosed hnot

/-- The calls let through by the threshold, by being early, and by the cooldowns. -/
theorem calls_le (h : w.Degraded opts callers since)
    (hthreshold : 1 ≤ opts.breaker.failureThreshold) (hcooldown : 0 < opts.breaker.cooldownMs) :
    w.calls.length ≤ opts.breaker.failureThreshold - 1 + callers +
      ((w.breaker.clock - since) / opts.breaker.cooldownMs).toNat := by
  by_cases hclosed : w.breaker.breaker.state = .CLOSED
  · have hcalls := h.closed hclosed
    have hcounted := h.probe.counted hclosed
    have hfew := h.few
    omega
  · obtain ⟨probes,hcalls,hclock,_⟩ := h.tripped hclosed
    have hprobes : (probes : Int) ≤ (w.breaker.clock - since) / opts.breaker.cooldownMs :=
      (Int.le_ediv_iff_mul_le hcooldown).mpr hclock
    omega

end ComposedWorld.Degraded

/-- In an outage the downstream gets the attempts of so many calls only, however many are made, and
gets them from calls that the breaker has let through. -/
theorem composed_outage_bound {s t : ComposedWorld} {es : List ComposedEvent} {callers : Nat}
    (hthreshold : 1 ≤ opts.breaker.failureThreshold) (hcooldown : 0 < opts.breaker.cooldownMs)
    (hfresh : s.Fresh) (hdown : opts.Down s.health)
    (houtage : Along (composedStep opts) (opts.Outage callers) s es)
    (hrun : run (composedStep opts) s es = some t) :
    t.callLog.length ≤ opts.maxAttempts * (opts.breaker.failureThreshold - 1 + callers +
      ((t.breaker.clock - s.breaker.clock) / opts.breaker.cooldownMs).toNat) ∧
    (t.callLog.length : Int) = (t.calls.map fun call => (call.phase.attempts : Int)).sum := by
  have hdegraded : t.Degraded opts callers s.breaker.clock := by
    apply houtage.invariant hrun (.start hthreshold hfresh hdown callers)
    intro w e w' hw hok hstep
    exact hw.step hthreshold hok hstep
  have hcalls := hdegraded.calls_le hthreshold hcooldown
  exact ⟨Nat.le_trans hdegraded.sound.callLog_le (Nat.mul_le_mul_left _ hcalls),
    hdegraded.sound.logged⟩

def sustainedOutage : ComposedWorld where
  breaker := .initial 0
  health := .downFailFast

/-- One order with all its attempts, each of them answered after five milliseconds. -/
def failingOrder (id : Nat) : List ComposedEvent :=
  let rolls : Rolls := ⟨.fast,5,400⟩
  [.makeCall id "order" rolls,.advance 5,.settle id,.wake id rolls,.advance 5,.settle id,
    .wake id rolls,.advance 5,.settle id]

/-- Six orders one after the other: four of them trip the breaker, and two are turned away. -/
def ordersInOutage : List ComposedEvent :=
  failingOrder 1 ++ failingOrder 2 ++ failingOrder 3 ++ failingOrder 4 ++
    [.makeCall 5 "order" ⟨.fast,5,400⟩,.makeCall 6 "order" ⟨.fast,5,400⟩]

theorem ordersInOutage_bound : ∃ t,
    run (composedStep composedOptions) sustainedOutage ordersInOutage = some t ∧
      t.callLog.length = 12 ∧ t.callLog.length ≤ 3 * (4 - 1 + 1 +
        ((t.breaker.clock - sustainedOutage.breaker.clock) / 300).toNat) ∧
      (t.callLog.length : Int) = (t.calls.map fun call => (call.phase.attempts : Int)).sum := by
  have hend : (run (composedStep composedOptions) sustainedOutage ordersInOutage).any
      (fun t => decide (t.callLog.length = 12)) = true := by decide
  have houtage : Along (composedStep composedOptions) (composedOptions.Outage 1) sustainedOutage
      ordersInOutage := by decide
  have hdown : composedOptions.Down sustainedOutage.health := trivial
  obtain ⟨t,hrun,hcalls,_⟩ := exists_run_of_any hend
  exact ⟨t,hrun,of_decide_eq_true hcalls,
    composed_outage_bound (by decide) (by decide) ⟨rfl,rfl,rfl⟩ hdown houtage hrun⟩

end SystemsLab.Resilience
