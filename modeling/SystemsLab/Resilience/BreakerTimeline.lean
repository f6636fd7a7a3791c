import SystemsLab.Resilience.CircuitBreaker
import Mathlib.Tactic.Linarith

/-!
# What one breaker promises over time

The documented machine moves `CLOSED → OPEN → HALF_OPEN → CLOSED/OPEN` and keeps `fn` from
running for a full cooldown after each opening. A late failure can re-open the breaker while
a probe is in flight, and the probe's success then closes it straight from `OPEN`. That
settlement is the only step that leaves the documented machine.
-/

namespace SystemsLab.Resilience

/-- The edges of the documented state machine. -/
def Edge : CircuitState → CircuitState → Prop
  | .CLOSED, .OPEN => True
  | .OPEN, .HALF_OPEN => True
  | .HALF_OPEN, .CLOSED => True
  | .HALF_OPEN, .OPEN => True
  | _, _ => False

instance : DecidableRel Edge := fun a b => by
  cases a <;> cases b <;> unfold Edge <;> infer_instance

/-- A later call does not run its `fn` inside the cooldown of an earlier opening. -/
def Spaced (cooldownMs : Int) (newer older : Notice) : Prop :=
  ∀ t u, older = .opened t → newer = .invoked u → ¬ (t ≤ u ∧ u < t + cooldownMs)

/-- The documented behaviour, read off a list of notices, newest first. -/
structure Documented (opts : CircuitBreakerOptions) (notices : List Notice) : Prop where
  edges : ∀ src dst reason, .changed src dst reason ∈ notices → Edge src dst
  cooldown : notices.Pairwise (Spaced opts.cooldownMs)

/-- The step is not the success of a probe whose breaker has been re-opened meanwhile. -/
def ProbeUndisturbed (w : World) : Event → Prop
  | .resolve id _ => w.call id = .probing → w.breaker.state ≠ .OPEN
  | _ => True

instance : ∀ w e, Decidable (ProbeUndisturbed w e)
  | w, .resolve id _ => inferInstanceAs (Decidable (w.call id = .probing → w.breaker.state ≠ .OPEN))
  | _, .execute _ _ => isTrue trivial
  | _, .reject _ => isTrue trivial
  | _, .advance _ => isTrue trivial

/-- Every past opening is over, or the breaker is still `OPEN` and remembers one at least
as recent. -/
structure Cooling (opts : CircuitBreakerOptions) (w : World) : Prop where
  edges : ∀ src dst reason, .changed src dst reason ∈ w.notices → Edge src dst
  spaced : w.notices.Pairwise (Spaced opts.cooldownMs)
  past : ∀ t, .opened t ∈ w.notices → t ≤ w.clock
  recent : w.breaker.state = .OPEN → ∀ t, .opened t ∈ w.notices → t ≤ w.breaker.openedAt
  elapsed : w.breaker.state ≠ .OPEN → ∀ t, .opened t ∈ w.notices → t + opts.cooldownMs ≤ w.clock

private theorem cooling_initial (opts : CircuitBreakerOptions) (clock : Int) :
    Cooling opts (World.initial clock) := by
  constructor <;> simp [World.initial]

private theorem Cooling.documented {opts : CircuitBreakerOptions} {w : World} (h : Cooling opts w) :
    Documented opts w.notices :=
  ⟨h.edges,h.spaced⟩

/-- What a segment must say about its notices to keep `Cooling`. -/
structure GoodSegment (opts : CircuitBreakerOptions) (w : World) (seg : Segment) : Prop where
  edges : ∀ src dst reason, .changed src dst reason ∈ seg.notices → Edge src dst
  quiet : ∀ u, .invoked u ∈ seg.notices →
    u = w.clock ∧ seg.breaker.state ≠ .OPEN ∧ ∀ t, .opened t ∉ seg.notices
  now : ∀ t, .opened t ∈ seg.notices → t = w.clock ∧ seg.breaker.state = .OPEN
  fresh : seg.breaker.state = .OPEN →
    (w.breaker.state = .OPEN ∧ w.breaker.openedAt = seg.breaker.openedAt ∧
      ∀ t, .opened t ∉ seg.notices) ∨ seg.breaker.openedAt = w.clock
  cooled : seg.breaker.state ≠ .OPEN → w.breaker.state = .OPEN →
    w.breaker.openedAt + opts.cooldownMs ≤ w.clock

private theorem pairwise_spaced_append {c : Int} {ns ms : List Notice}
    (hns : (∀ u, .invoked u ∉ ns) ∨ ∀ t, .opened t ∉ ns)
    (hms : ms.Pairwise (Spaced c))
    (hcross : ∀ n ∈ ns, ∀ m ∈ ms, Spaced c n m) : (ns ++ ms).Pairwise (Spaced c) := by
  refine List.pairwise_append.mpr ⟨?_,hms,hcross⟩
  refine List.pairwise_of_forall_mem_list fun n hn m hm => ?_
  intro t u hm' hn'
  subst hm' hn'
  rcases hns with h | h
  · exact absurd hn (h u)
  · exact absurd hm (h t)

private theorem Cooling.book {opts : CircuitBreakerOptions} {w : World} (h : Cooling opts w)
    {seg : Segment} (hseg : GoodSegment opts w seg) (id : Nat) :
    Cooling opts (w.book id seg) := by
  have hover : seg.breaker.state ≠ .OPEN → ∀ t, .opened t ∈ w.notices →
      t + opts.cooldownMs ≤ w.clock := by
    intro hs t ht
    by_cases ho : w.breaker.state = .OPEN
    · have := h.recent ho t ht
      have := hseg.cooled hs ho
      linarith
    · exact h.elapsed ho t ht
  refine ⟨?_,?_,?_,?_,?_⟩
  · intro src dst reason hm
    rcases List.mem_append.mp hm with hm | hm
    · exact hseg.edges _ _ _ hm
    · exact h.edges _ _ _ hm
  · refine pairwise_spaced_append ?_ h.spaced ?_
    · by_cases hi : ∀ u, .invoked u ∉ seg.notices
      · exact .inl hi
      · push Not at hi
        obtain ⟨u,hu⟩ := hi
        exact .inr (hseg.quiet u hu).2.2
    · intro n hn m hm t u hmt hnu
      subst hmt hnu
      obtain ⟨rfl,hs,-⟩ := hseg.quiet u hn
      have := hover hs t hm
      intro hin
      linarith [hin.2]
  · intro t ht
    rcases List.mem_append.mp ht with ht | ht
    · exact le_of_eq (hseg.now t ht).1
    · exact h.past t ht
  · intro hs t ht
    change seg.breaker.state = .OPEN at hs
    change t ≤ seg.breaker.openedAt
    rcases hseg.fresh hs with ⟨ho,heq,hno⟩ | heq
    · rcases List.mem_append.mp ht with ht | ht
      · exact absurd ht (hno t)
      · rw [← heq]
        exact h.recent ho t ht
    · rw [heq]
      rcases List.mem_append.mp ht with ht | ht
      · exact le_of_eq (hseg.now t ht).1
      · exact h.past t ht
  · intro hs t ht
    change seg.breaker.state ≠ .OPEN at hs
    rcases List.mem_append.mp ht with ht | ht
    · exact absurd (hseg.now t ht).2 hs
    · exact hover hs t ht

private theorem change_edges (b : CircuitBreaker) (dst : CircuitState) (reason : String)
    (h : b.state ≠ dst → Edge b.state dst) :
    ∀ src dst' r, .changed src dst' r ∈ b.change dst reason → Edge src dst' := by
  intro src dst' r hm
  unfold CircuitBreaker.change at hm
  split at hm
  · cases hm
  · rename_i hne
    obtain ⟨rfl,rfl,rfl⟩ : src = b.state ∧ dst' = dst ∧ r = reason := by simpa using hm
    exact h hne

private theorem change_only (b : CircuitBreaker) (dst : CircuitState) (reason : String) :
    ∀ n ∈ b.change dst reason, ∃ src dst' r, n = .changed src dst' r := by
  intro n hn
  unfold CircuitBreaker.change at hn
  split at hn
  · cases hn
  · exact ⟨_,_,_,by simpa using hn⟩

private theorem enterHalfOpen_good (opts : CircuitBreakerOptions) (w : World)
    {b : CircuitBreaker} (hb : b.state = .HALF_OPEN) (change : List Notice)
    (hedge : ∀ src dst reason, .changed src dst reason ∈ change → Edge src dst)
    (hchange : ∀ n ∈ change, ∃ src dst reason, n = .changed src dst reason)
    (hcool : w.breaker.state = .OPEN → w.breaker.openedAt + opts.cooldownMs ≤ w.clock) :
    let seg := enterHalfOpen w.clock b
    GoodSegment opts w { seg with notices := seg.notices ++ change } := by
  have hno : ∀ t, .opened t ∉ change := by
    intro t ht
    obtain ⟨src,dst,reason,h⟩ := hchange _ ht
    cases h
  have hni : ∀ u, .invoked u ∉ change := by
    intro u hu
    obtain ⟨src,dst,reason,h⟩ := hchange _ hu
    cases h
  unfold enterHalfOpen
  cases b.halfOpenProbeInFlight with
  | true =>
    refine ⟨by simpa using hedge,?_,?_,?_,fun _ ho => hcool ho⟩
    · intro u hu
      exact absurd hu (by simpa using hni u)
    · intro t ht
      exact absurd ht (by simpa using hno t)
    · intro hs
      simp [hb] at hs
  | false =>
    refine ⟨by simpa using hedge,?_,?_,?_,fun _ ho => hcool ho⟩
    · intro u hu
      have hu' : u = w.clock := by simpa [hni u] using hu
      exact ⟨hu',by simp [hb],by simpa using hno⟩
    · intro t ht
      exact absurd ht (by simpa using hno t)
    · intro hs
      simp [hb] at hs

private theorem executeEnter_good (opts : CircuitBreakerOptions) (throws : Throws) (w : World) :
    GoodSegment opts w (executeEnter opts throws w.clock w.breaker) := by
  unfold executeEnter
  cases hs : w.breaker.state with
  | CLOSED => constructor <;> simp [hs]
  | HALF_OPEN =>
    have h := enterHalfOpen_good opts w hs [] (by simp) (by simp) (by simp [hs])
    simpa using h
  | OPEN =>
    by_cases hc : opts.cooldownMs ≤ w.clock - w.breaker.openedAt
    · have hcool : w.breaker.openedAt + opts.cooldownMs ≤ w.clock := by linarith
      have hedge := change_edges w.breaker .HALF_OPEN "cooldown elapsed" (by simp [hs,Edge])
      have honly := change_only w.breaker .HALF_OPEN "cooldown elapsed"
      by_cases ht : throws .OPEN .HALF_OPEN
      · simp only [hc,ht,if_true]
        refine ⟨hedge,?_,?_,nofun,fun _ _ => hcool⟩
        · intro u hu
          obtain ⟨src,dst,r,he⟩ := honly _ hu
          cases he
        · intro t ho
          obtain ⟨src,dst,r,he⟩ := honly _ ho
          cases he
      · simp only [hc,ht,if_true]
        exact enterHalfOpen_good opts w rfl _ hedge honly fun _ => hcool
    · simp only [hc,if_false]
      constructor <;> simp [hs]

private theorem reopen_edges (b : CircuitBreaker) (now : Int) (reason : String) :
    ∀ src dst r, .changed src dst r ∈ (b.reopen now reason).2 → Edge src dst := by
  intro src dst r h
  rcases List.mem_append.mp h with h | h
  · refine change_edges b .OPEN reason (fun hne => ?_) _ _ _ h
    cases hs : b.state <;> simp_all [Edge]
  · simp at h

private theorem reopen_notices (b : CircuitBreaker) (now : Int) (reason : String) :
    (∀ u, .invoked u ∉ (b.reopen now reason).2) ∧
      ∀ t, .opened t ∈ (b.reopen now reason).2 → t = now := by
  unfold CircuitBreaker.reopen CircuitBreaker.change
  constructor
  · intro u h
    split at h <;> simp at h
  · intro t h
    split at h <;> simpa using h

private theorem reopen_good (opts : CircuitBreakerOptions) (w : World) (b : CircuitBreaker)
    (reason : String) (flag : Bool) (change : List Notice)
    (hedge : ∀ src dst r, .changed src dst r ∈ change → Edge src dst)
    (hchange : ∀ n ∈ change, ∃ src dst r, n = .changed src dst r) :
    GoodSegment opts w ⟨{ (b.reopen w.clock reason).1 with halfOpenProbeInFlight := flag },.done,
      (b.reopen w.clock reason).2 ++ change⟩ := by
  have hn := reopen_notices b w.clock reason
  have hstate : ({ (b.reopen w.clock reason).1 with halfOpenProbeInFlight := flag } :
      CircuitBreaker).state = .OPEN := rfl
  refine ⟨?_,?_,?_,fun _ => .inr rfl,fun h => absurd hstate h⟩
  · intro src dst r h
    rcases List.mem_append.mp h with h | h
    · exact reopen_edges b w.clock reason _ _ _ h
    · exact hedge _ _ _ h
  · intro u h
    rcases List.mem_append.mp h with h | h
    · exact absurd h (hn.1 u)
    · obtain ⟨src,dst,r,he⟩ := hchange _ h
      cases he
  · intro t h
    rcases List.mem_append.mp h with h | h
    · exact ⟨hn.2 t h,rfl⟩
    · obtain ⟨src,dst,r,he⟩ := hchange _ h
      cases he

private theorem probeResolved_good (opts : CircuitBreakerOptions) (throws : Throws) (w : World)
    (hs : w.breaker.state ≠ .OPEN) :
    GoodSegment opts w (probeResolved throws w.clock w.breaker) := by
  have hedge := change_edges w.breaker .CLOSED "probe succeeded"
    (fun hne => by cases hb : w.breaker.state <;> simp_all [Edge])
  have hchange := change_only w.breaker .CLOSED "probe succeeded"
  unfold probeResolved
  split
  · exact reopen_good opts w _ _ false _ hedge hchange
  · refine ⟨hedge,?_,?_,?_,fun _ ho => absurd ho hs⟩
    · intro u h
      obtain ⟨src,dst,r,he⟩ := hchange _ h
      cases he
    · intro t h
      obtain ⟨src,dst,r,he⟩ := hchange _ h
      cases he
    · intro h
      cases h

private theorem probeRejected_good (opts : CircuitBreakerOptions) (w : World) :
    GoodSegment opts w (probeRejected w.clock w.breaker) := by
  have h := reopen_good opts w w.breaker "probe failed" false [] (by simp) (by simp)
  simpa [probeRejected] using h

private theorem closedResolved_good (opts : CircuitBreakerOptions) (w : World) :
    GoodSegment opts w (closedResolved w.breaker) := by
  constructor <;> simp [closedResolved]
  · exact Or.inl
  · intro h ho
    exact absurd ho h

private theorem closedRejected_good (opts : CircuitBreakerOptions) (w : World) :
    GoodSegment opts w (closedRejected opts w.clock w.breaker) := by
  unfold closedRejected
  by_cases hf : opts.failureThreshold ≤ w.breaker.consecutiveFailures + 1
  · simp only [hf,if_true]
    have h := reopen_good opts w
      { w.breaker with consecutiveFailures := w.breaker.consecutiveFailures + 1 }
      "failure threshold reached" w.breaker.halfOpenProbeInFlight [] (by simp) (by simp)
    simpa [CircuitBreaker.reopen,CircuitBreaker.transition] using h
  · simp only [hf,if_false]
    constructor <;> simp
    · exact Or.inl
    · intro h ho
      exact absurd ho h

theorem Cooling.step {opts : CircuitBreakerOptions} {w w' : World} {e : Event}
    (h : Cooling opts w) (hok : ProbeUndisturbed w e) (hs : breakerStep opts w e = some w') :
    Cooling opts w' := by
  cases e with
  | execute id throws =>
    simp only [breakerStep] at hs
    split at hs <;> cases hs
    exact h.book (executeEnter_good opts throws w) id
  | resolve id throws =>
    simp only [breakerStep] at hs
    split at hs <;> cases hs
    · rename_i hp
      exact h.book (probeResolved_good opts throws w (hok hp)) id
    · exact h.book (closedResolved_good opts w) id
  | reject id =>
    simp only [breakerStep] at hs
    split at hs <;> cases hs
    · exact h.book (probeRejected_good opts w) id
    · exact h.book (closedRejected_good opts w) id
  | advance ms =>
    simp only [breakerStep] at hs
    cases hs
    have hle : w.clock ≤ w.clock + ms := by omega
    exact ⟨h.edges,h.spaced,fun t ht => (h.past t ht).trans hle,h.recent,
      fun ho t ht => (h.elapsed ho t ht).trans hle⟩

/-- The breaker was seen to go straight from `OPEN` to `CLOSED`. -/
def Leaked (w : World) : Prop := ∃ reason, .changed .OPEN .CLOSED reason ∈ w.notices

private theorem Leaked.not_documented {opts : CircuitBreakerOptions} {w : World} (h : Leaked w) :
    ¬ Documented opts w.notices := by
  obtain ⟨reason,h⟩ := h
  exact fun hd => hd.edges _ _ _ h

private theorem notices_suffix {opts : CircuitBreakerOptions} {w w' : World} {e : Event}
    (hs : breakerStep opts w e = some w') : w.notices <:+ w'.notices := by
  cases e <;> simp only [breakerStep] at hs
  case advance ms =>
    cases hs
    exact List.suffix_rfl
  all_goals
    split at hs <;> cases hs
    all_goals exact List.suffix_append _ _

private theorem leaked_of_disturbed {opts : CircuitBreakerOptions} {w w' : World} {e : Event}
    (hno : ¬ ProbeUndisturbed w e) (hs : breakerStep opts w e = some w') : Leaked w' := by
  cases e with
  | resolve id throws =>
    simp only [ProbeUndisturbed,Classical.not_imp,not_not] at hno
    obtain ⟨hp,ho⟩ := hno
    simp only [breakerStep,hp] at hs
    cases hs
    refine ⟨"probe succeeded",List.mem_append_left _ ?_⟩
    unfold probeResolved
    split <;> simp [CircuitBreaker.change,ho]
  | execute id throws => exact absurd trivial hno
  | reject id => exact absurd trivial hno
  | advance ms => exact absurd trivial hno

/-- A run keeps to the documented machine and its cooldowns exactly when no probe succeeds
after a late failure has re-opened the breaker. -/
theorem breaker_documented_iff (opts : CircuitBreakerOptions) (clock : Int)
    {es : List Event} {w : World}
    (hrun : run (breakerStep opts) (World.initial clock) es = some w) :
    Documented opts w.notices ↔
      Along (breakerStep opts) ProbeUndisturbed (World.initial clock) es :=
  run_property_iff_along (fun _ _ _ h hok hs => h.step hok hs)
    (fun _ _ _ _ hno hs => leaked_of_disturbed hno hs)
    (fun _ _ _ hl hs => hl.imp fun _ hm => (notices_suffix hs).mem hm)
    (fun _ h => h.documented) (fun _ h => h.not_documented) (cooling_initial opts clock) hrun

/-- One failure trips the breaker and the probe after the cooldown closes it. -/
def tripAndRecover : List Event :=
  let quiet : Throws := fun _ _ => false
  [.execute 0 quiet,.reject 0,.advance 1000,.execute 1 quiet,.resolve 1 quiet]

theorem tripAndRecover_documented :
    ∃ w, run (breakerStep ⟨1,1000⟩) (World.initial 0) tripAndRecover = some w ∧
      Documented ⟨1,1000⟩ w.notices := by
  obtain ⟨w,hw⟩ := Option.isSome_iff_exists.mp
    (by decide : (run (breakerStep ⟨1,1000⟩) (World.initial 0) tripAndRecover).isSome)
  exact ⟨w,hw,(breaker_documented_iff ⟨1,1000⟩ 0 hw).mpr (by decide)⟩

/-- Calls 0 and 1 enter while `CLOSED`; 0 trips the breaker, 2 is the probe after the
cooldown, 1 fails late and re-opens, then the probe succeeds and 3 is let in at once. -/
def lateFailureDuringProbe : List Event :=
  let quiet : Throws := fun _ _ => false
  [.execute 0 quiet,.execute 1 quiet,.reject 0,.advance 1000,.execute 2 quiet,.reject 1,
    .resolve 2 quiet,.execute 3 quiet]

private theorem lateFailureDuringProbe_notices :
    (run (breakerStep ⟨1,1000⟩) (World.initial 0) lateFailureDuringProbe).map World.notices =
      some [.invoked 1000,.changed .OPEN .CLOSED "probe succeeded",
        .changed .HALF_OPEN .OPEN "failure threshold reached",.opened 1000,.invoked 1000,
        .changed .OPEN .HALF_OPEN "cooldown elapsed",
        .changed .CLOSED .OPEN "failure threshold reached",.opened 0,.invoked 0,.invoked 0] := by
  decide

/-- Both halves of the documented behaviour fail: an undocumented edge, and a call let in
during the cooldown of the second opening. -/
theorem breaker_not_documented :
    ∃ opts es w, 1 ≤ opts.failureThreshold ∧
      run (breakerStep opts) (World.initial 0) es = some w ∧
      (∃ src dst reason, .changed src dst reason ∈ w.notices ∧ ¬ Edge src dst) ∧
      ¬ w.notices.Pairwise (Spaced opts.cooldownMs) := by
  obtain ⟨w,hw,hn⟩ := Option.map_eq_some_iff.mp lateFailureDuringProbe_notices
  refine ⟨⟨1,1000⟩,_,w,le_rfl,hw,⟨.OPEN,.CLOSED,"probe succeeded",?_,by decide⟩,?_⟩
  · simp [hn]
  · rw [hn]
    intro h
    exact List.rel_of_pairwise_cons h (by simp : Notice.opened 1000 ∈ _) 1000 1000 rfl rfl
      ⟨le_rfl,by decide⟩

end SystemsLab.Resilience
