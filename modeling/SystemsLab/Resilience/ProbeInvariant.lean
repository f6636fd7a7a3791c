import SystemsLab.Resilience.CircuitBreaker

/-!
# The half-open probe

The flag, the state and the failure counter of one breaker are updated by probes, by late calls
from an earlier `CLOSED` period and by new arrivals, in any order. Here the clock may read
anything, also less than before: no part of the invariant depends on it. Of `onStateChange` the
model has whether it throws: the callback does not call the breaker itself.
-/

namespace SystemsLab.Resilience

variable {opts : CircuitBreakerOptions} {w w' : World}

/-- An event together with what the clock reads when it happens. -/
def clockedStep (opts : CircuitBreakerOptions) (w : World) (e : Int × Event) : Option World :=
  breakerStep opts { w with clock := e.1 } e.2

/-- `onStateChange` does not throw. -/
def Quiet (_ : World) : Int × Event → Prop
  | (_,.execute _ throws) => ∀ src dst, throws src dst = false
  | (_,.resolve _ throws) => ∀ src dst, throws src dst = false
  | _ => True

structure ProbeSound (opts : CircuitBreakerOptions) (w : World) : Prop where
  single : ∀ i j, w.call i = .probing → w.call j = .probing → i = j
  flagged : w.breaker.halfOpenProbeInFlight = true ↔ ∃ i, w.call i = .probing
  probed : w.breaker.state = .HALF_OPEN → ∃ i, w.call i = .probing
  counted : w.breaker.state = .CLOSED → w.breaker.consecutiveFailures < opts.failureThreshold

private theorem ProbeSound.clocked (h : ProbeSound opts w) (clock : Int) :
    ProbeSound opts { w with clock } :=
  ⟨h.single,h.flagged,h.probed,h.counted⟩

private theorem ProbeSound.book_other (h : ProbeSound opts w) {id : Nat} {seg : Segment}
    (hold : w.call id ≠ .probing) (hnew : seg.phase ≠ .probing)
    (hflag : seg.breaker.halfOpenProbeInFlight = w.breaker.halfOpenProbeInFlight)
    (hstate : seg.breaker.state = .HALF_OPEN → w.breaker.halfOpenProbeInFlight = true)
    (hcount : seg.breaker.state = .CLOSED →
      seg.breaker.consecutiveFailures < opts.failureThreshold) :
    ProbeSound opts (w.book id seg) := by
  have hsame : ∀ i, (w.book id seg).call i = .probing ↔ w.call i = .probing := by
    intro i
    show Function.update w.call id seg.phase i = .probing ↔ _
    by_cases hi : i = id
    · subst hi
      rw [Function.update_self]
      exact iff_of_false hnew hold
    · rw [Function.update_of_ne hi]
  have hexists : (∃ i, (w.book id seg).call i = .probing) ↔ ∃ i, w.call i = .probing :=
    exists_congr hsame
  constructor
  · intro i j hi hj
    exact h.single i j ((hsame i).mp hi) ((hsame j).mp hj)
  · rw [hexists,← h.flagged,← hflag]
    rfl
  · intro hs
    rw [hexists,← h.flagged]
    exact hstate hs
  · exact hcount

theorem ProbeSound.book_start (h : ProbeSound opts w) {id : Nat} {seg : Segment}
    (hnone : w.breaker.halfOpenProbeInFlight = false) (hnew : seg.phase = .probing)
    (hflag : seg.breaker.halfOpenProbeInFlight = true)
    (hstate : seg.breaker.state = .HALF_OPEN) : ProbeSound opts (w.book id seg) := by
  have hidle : ∀ i, w.call i ≠ .probing := by
    intro i hi
    rw [h.flagged.mpr ⟨i,hi⟩] at hnone
    cases hnone
  have hown : (w.book id seg).call id = .probing := by
    show Function.update w.call id seg.phase id = .probing
    rw [Function.update_self,hnew]
  have honly : ∀ i, (w.book id seg).call i = .probing → i = id := by
    intro i hi
    by_contra hne
    change Function.update w.call id seg.phase i = .probing at hi
    rw [Function.update_of_ne hne] at hi
    exact hidle i hi
  constructor
  · intro i j hi hj
    rw [honly i hi,honly j hj]
  · exact iff_of_true hflag ⟨id,hown⟩
  · exact fun _ => ⟨id,hown⟩
  · intro hs
    change seg.breaker.state = .CLOSED at hs
    rw [hstate] at hs
    cases hs

private theorem ProbeSound.book_end (h : ProbeSound opts w) {id : Nat} {seg : Segment}
    (hold : w.call id = .probing) (hnew : seg.phase ≠ .probing)
    (hflag : seg.breaker.halfOpenProbeInFlight = false)
    (hstate : seg.breaker.state ≠ .HALF_OPEN)
    (hcount : seg.breaker.state = .CLOSED →
      seg.breaker.consecutiveFailures < opts.failureThreshold) :
    ProbeSound opts (w.book id seg) := by
  have hidle : ∀ i, (w.book id seg).call i ≠ .probing := by
    intro i hi
    change Function.update w.call id seg.phase i = .probing at hi
    by_cases hne : i = id
    · subst hne
      rw [Function.update_self] at hi
      exact hnew hi
    · rw [Function.update_of_ne hne] at hi
      exact hne (h.single i id hi hold)
  constructor
  · intro i j hi _
    exact absurd hi (hidle i)
  · rw [show (w.book id seg).breaker.halfOpenProbeInFlight = false from hflag]
    constructor
    · intro hf
      cases hf
    · rintro ⟨i,hi⟩
      exact absurd hi (hidle i)
  · exact fun hs => absurd hs hstate
  · exact hcount

/-- From a half-open breaker, with or without a probe in flight. -/
theorem ProbeSound.enterHalfOpen (h : ProbeSound opts w) {id : Nat} {b : CircuitBreaker}
    (hid : w.call id = .notStarted) (now : Int) (hb : b.state = .HALF_OPEN)
    (hflag : b.halfOpenProbeInFlight = w.breaker.halfOpenProbeInFlight) (notices : List Notice) :
    ProbeSound opts (w.book id { enterHalfOpen now b with notices }) := by
  have hold : w.call id ≠ .probing := by
    rw [hid]
    exact nofun
  unfold Resilience.enterHalfOpen
  cases hin : b.halfOpenProbeInFlight with
  | true =>
    apply h.book_other hold
    · exact nofun
    · exact hflag
    · exact fun _ => hflag.symm.trans hin
    · intro hs
      change b.state = .CLOSED at hs
      rw [hb] at hs
      cases hs
  | false =>
    apply h.book_start
    · exact hflag.symm.trans hin
    · rfl
    · rfl
    · exact hb

private theorem ProbeSound.executeEnter (h : ProbeSound opts w) {id : Nat} {throws : Throws}
    (hid : w.call id = .notStarted) (hquiet : ∀ src dst, throws src dst = false) :
    ProbeSound opts (w.book id (executeEnter opts throws w.clock w.breaker)) := by
  have hold : w.call id ≠ .probing := by
    rw [hid]
    exact nofun
  unfold Resilience.executeEnter
  cases hs : w.breaker.state with
  | CLOSED =>
    apply h.book_other hold
    · exact nofun
    · rfl
    · intro hhalf
      exact h.flagged.mpr (h.probed hhalf)
    · exact h.counted
  | HALF_OPEN => exact h.enterHalfOpen hid w.clock hs rfl _
  | OPEN =>
    by_cases hcool : opts.cooldownMs ≤ w.clock - w.breaker.openedAt
    · simp only [hcool,if_true,hquiet,Bool.false_eq_true,if_false]
      exact h.enterHalfOpen (b := w.breaker.transition .HALF_OPEN) hid w.clock rfl rfl _
    · simp only [hcool,if_false]
      apply h.book_other hold
      · exact nofun
      · rfl
      · intro hhalf
        exact h.flagged.mpr (h.probed hhalf)
      · exact h.counted

private theorem ProbeSound.probeResolved (h : ProbeSound opts w) {id : Nat} {throws : Throws}
    (hthreshold : 1 ≤ opts.failureThreshold) (hid : w.call id = .probing)
    (hquiet : ∀ src dst, throws src dst = false) :
    ProbeSound opts (w.book id (probeResolved throws w.clock w.breaker)) := by
  unfold Resilience.probeResolved
  simp only [hquiet,Bool.false_eq_true,and_false,if_false]
  apply h.book_end hid
  · exact nofun
  · rfl
  · exact nofun
  · intro _
    show 0 < opts.failureThreshold
    omega

private theorem ProbeSound.probeRejected (h : ProbeSound opts w) {id : Nat}
    (hid : w.call id = .probing) :
    ProbeSound opts (w.book id (probeRejected w.clock w.breaker)) := by
  apply h.book_end hid
  · exact nofun
  · rfl
  · exact nofun
  · exact nofun

/-- A late call may settle while the breaker is `OPEN` or half-open. -/
theorem ProbeSound.closedResolved (h : ProbeSound opts w) {id : Nat}
    (hthreshold : 1 ≤ opts.failureThreshold) (hid : w.call id = .attempting) :
    ProbeSound opts (w.book id (closedResolved w.breaker)) := by
  apply h.book_other
  · rw [hid]
    exact nofun
  · exact nofun
  · rfl
  · intro hhalf
    exact h.flagged.mpr (h.probed hhalf)
  · intro _
    show 0 < opts.failureThreshold
    omega

private theorem ProbeSound.closedRejected (h : ProbeSound opts w) {id : Nat}
    (hid : w.call id = .attempting) :
    ProbeSound opts (w.book id (closedRejected opts w.clock w.breaker)) := by
  have hold : w.call id ≠ .probing := by
    rw [hid]
    exact nofun
  unfold Resilience.closedRejected
  by_cases hf : opts.failureThreshold ≤ w.breaker.consecutiveFailures + 1
  · simp only [hf,if_true]
    apply h.book_other hold
    · exact nofun
    · rfl
    · exact nofun
    · exact nofun
  · simp only [hf,if_false]
    apply h.book_other hold
    · exact nofun
    · rfl
    · intro hhalf
      exact h.flagged.mpr (h.probed hhalf)
    · intro _
      show w.breaker.consecutiveFailures + 1 < opts.failureThreshold
      omega

theorem ProbeSound.initial (hthreshold : 1 ≤ opts.failureThreshold) (clock : Int) :
    ProbeSound opts (World.initial clock) := by
  constructor
  · intro i _ hi
    cases hi
  · constructor
    · intro hf
      cases hf
    · rintro ⟨i,hi⟩
      cases hi
  · intro hs
    cases hs
  · intro _
    show 0 < opts.failureThreshold
    omega

theorem ProbeSound.step (hthreshold : 1 ≤ opts.failureThreshold) (h : ProbeSound opts w)
    {e : Int × Event} (hquiet : Quiet w e) (hs : clockedStep opts w e = some w') :
    ProbeSound opts w' := by
  obtain ⟨now,e⟩ := e
  have hnow := h.clocked now
  cases e with
  | execute id throws =>
    simp only [clockedStep,breakerStep] at hs
    split at hs <;> cases hs
    rename_i hid
    exact hnow.executeEnter hid hquiet
  | resolve id throws =>
    simp only [clockedStep,breakerStep] at hs
    split at hs <;> cases hs
    · rename_i hid
      exact hnow.probeResolved hthreshold hid hquiet
    · rename_i hid
      exact hnow.closedResolved hthreshold hid
  | reject id =>
    simp only [clockedStep,breakerStep] at hs
    split at hs <;> cases hs
    · rename_i hid
      exact hnow.probeRejected hid
    · rename_i hid
      exact hnow.closedRejected hid
  | advance ms =>
    cases hs
    exact hnow.clocked _

/-- Between any two segments at most one probe is in flight, the flag says whether there is one,
a half-open breaker has one, and a closed breaker is below its threshold. -/
theorem breaker_probeSound {clock : Int} (hthreshold : 1 ≤ opts.failureThreshold)
    (h : ReachableBy (clockedStep opts) (· = World.initial clock) Quiet w) :
    ProbeSound opts w := by
  apply h.invariant
  · intro s hs
    rw [hs]
    exact .initial hthreshold clock
  · intro s e t hs hquiet hstep
    exact hs.step hthreshold hquiet hstep

/-- Calls 0 and 1 start together. 0 fails, 2 probes, 1 fails while the probe runs, 3 finds the
probe in flight although the clock has been set back in between, and then the probe succeeds. -/
def probeUnderFire : List (Int × Event) :=
  let quiet : Throws := fun _ _ => false
  [(0,.execute 0 quiet),(0,.execute 1 quiet),(5,.reject 0),(1005,.execute 2 quiet),
    (900,.reject 1),(1900,.execute 3 quiet),(1901,.resolve 2 quiet)]

theorem probeUnderFire_probeSound :
    ∃ w, run (clockedStep ⟨1,1000⟩) (World.initial 0) probeUnderFire = some w ∧
      ProbeSound ⟨1,1000⟩ w := by
  have hrun : (run (clockedStep ⟨1,1000⟩) (World.initial 0) probeUnderFire).isSome = true := by
    decide
  obtain ⟨w,hw⟩ := Option.isSome_iff_exists.mp hrun
  have hquiet : Along (clockedStep ⟨1,1000⟩) Quiet (World.initial 0) probeUnderFire := by
    simp [probeUnderFire,Along,Quiet]
  have hstart : ReachableBy (clockedStep ⟨1,1000⟩) (· = World.initial 0) Quiet (World.initial 0) :=
    .start rfl
  exact ⟨w,hw,breaker_probeSound (Nat.le_refl 1) (hstart.run hquiet hw)⟩

end SystemsLab.Resilience
