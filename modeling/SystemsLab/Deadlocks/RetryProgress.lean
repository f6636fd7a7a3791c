import SystemsLab.Deadlocks.RetrySafety
import SystemsLab.Framework.Settling
import Mathlib.Algebra.Order.BigOperators.Group.Finset
import Mathlib.Algebra.Order.Group.Nat

/-!
# That retried legs come to an end

Every statement takes an attempt further, and every attempt takes one off the budget of its client.
When no statement can run, somebody waits in a circle, which is what the deadlock detector breaks.
This is about legs without `rendezvousForFirstAttempt`: at that barrier a leg waits for a peer that
may be waiting for its row, or over.
-/

namespace SystemsLab.Deadlocks

variable {first w w' : RetryWorld} {n m N : Nat} {r : RetryClient} {c : LegCall} {e : RetryEvent}

/-- The statements of an attempt that are still to come. -/
def LegPhase.left : LegPhase → Nat
  | .lockingFirst => 5
  | .lockingSecond => 4
  | .debiting => 3
  | .crediting => 2
  | .committing => 1
  | _ => 0

/-- Each statement may be sent and then wait. -/
def LegCall.left (c : LegCall) : Nat :=
  2 * c.phase.left - if c.waiting.isSome then 1 else 0

def RetryClient.left (r : RetryClient) (c : LegCall) : Nat :=
  match r.phase with
  | .attempting => (r.maxAttempts - r.attempt) * 11 + c.left
  | .sleeping => (r.maxAttempts - r.attempt) * 11
  | _ => 0

def RetryWorld.left (w : RetryWorld) (n : Nat) : Nat :=
  match w.client n, w.legs.call n with
  | some r, some c => r.left c
  | _, _ => 0

private theorem LegPhase.left_pos {phase : LegPhase} (h : phase.hasEnded = false) :
    0 < phase.left := by
  cases phase with
  | lockingFirst => decide
  | lockingSecond => decide
  | debiting => decide
  | crediting => decide
  | committing => decide
  | _ => cases h

private theorem LegCall.left_pos (h : c.phase.hasEnded = false) : 0 < c.left := by
  have hphase := LegPhase.left_pos h
  unfold LegCall.left
  split <;> omega

private theorem LegCall.Writes.left_lt {k : Nat} {d : Int} {next : LegPhase}
    (h : c.Writes k d next) :
    next.left < c.phase.left := by
  cases h with
  | lockFirst hp => rw [hp]; decide
  | lockSecond hp => rw [hp]; decide
  | debit hp => rw [hp]; decide
  | credit hp => rw [hp]; decide

private theorem RetryWorld.left_eq (hr : w.client n = some r) (hc : w.legs.call n = some c) :
    w.left n = r.left c := by
  rw [RetryWorld.left,hr,hc]

private theorem RetryClient.left_attempting (h : r.phase = .attempting) :
    r.left c = (r.maxAttempts - r.attempt) * 11 + c.left := by
  rw [RetryClient.left,h]

private theorem RetryClient.left_caught (r : RetryClient) (code : ErrorCode) (d : LegCall) :
    (r.caught code).left d ≤ (r.maxAttempts - r.attempt) * 11 := by
  cases code with
  | none => exact Nat.zero_le _
  | some code =>
    unfold RetryClient.caught
    dsimp only
    split
    · exact Nat.le_refl _
    · exact Nat.zero_le _

def RetryEvent.Starts : RetryEvent → Prop
  | .start _ _ _ _ _ _ _ => True
  | _ => False

/-- Client `n` has moved on, and there is less left for it. -/
structure RetryWorld.Advances (w w' : RetryWorld) (n : Nat) : Prop where
  client : ∀ m, m ≠ n → w'.client m = w.client m
  call : ∀ m, m ≠ n → w'.legs.call m = w.legs.call m
  known : w.client n ≠ none
  less : w'.left n < w.left n

namespace RetryWorld.Advances

private theorem put (hr : w.client n = some r) (hc : w.legs.call n = some c) {q : RetryClient}
    {d : LegCall} (hclient : w'.client = Function.update w.client n (some q))
    (hcall : w'.legs.call = Function.update w.legs.call n (some d)) (hless : q.left d < r.left c) :
    w.Advances w' n := by
  refine ⟨?_,?_,by rw [hr]; nofun,?_⟩
  · intro m hm
    rw [hclient,Function.update_of_ne hm]
  · intro m hm
    rw [hcall,Function.update_of_ne hm]
  · have hq : w'.client n = some q := by rw [hclient,Function.update_self]
    have hd : w'.legs.call n = some d := by rw [hcall,Function.update_self]
    rw [left_eq hr hc,left_eq hq hd]
    exact hless

private theorem caught (hr : w.client n = some r) (hc : w.legs.call n = some c)
    (hmatches : r.Matches c) (hattempting : r.phase = .attempting) {code : ErrorCode} {d : LegCall}
    (hclient : w'.client = Function.update w.client n (some (r.caught code)))
    (hcall : w'.legs.call = Function.update w.legs.call n (some d)) : w.Advances w' n := by
  apply put hr hc hclient hcall
  have hless := r.left_caught code d
  have hpos := LegCall.left_pos (hmatches.attempting.mp hattempting)
  rw [RetryClient.left_attempting hattempting]
  omega

private theorem book (h : first.Sound w) (hr : w.client n = some r) (hc : w.legs.call n = some c)
    (hattempting : r.phase = .attempting) {legs : LegsWorld} {code : String}
    (hm : AttemptMove w.legs n c legs) : w.Advances (w.book n r code legs) n := by
  have hmatches := h.matches_of hr hc
  have hsame : w.client = Function.update w.client n (some r) := by
    rw [← hr,Function.update_eq_self]
  have hgo : ∀ d : LegCall, legs.call = Function.update w.legs.call n (some d) →
      d.phase.hasEnded = false → d.left < c.left → w.Advances (w.book n r code legs) n := by
    intro d hcall hopen hless
    rw [RetryWorld.book_open hcall hopen]
    refine put hr hc hsame hcall ?_
    rw [RetryClient.left_attempting hattempting,RetryClient.left_attempting hattempting]
    omega
  cases hm with
  | queued k d next hwrites hwaiting _ =>
    have hpos := LegPhase.left_pos hwrites.not_hasEnded
    apply hgo _ rfl hwrites.not_hasEnded
    rw [LegCall.left,LegCall.left,hwaiting]
    simp
    omega
  | wrote k d next balance hwrites _ =>
    have hless := hwrites.left_lt
    apply hgo _ rfl
    · exact hwrites.next_not_hasEnded
    · rw [LegCall.left,LegCall.left]
      simp
      split <;> omega
  | refused k d next hwrites =>
    rw [RetryWorld.book_aborted (d := { c with phase := .aborted, waiting := none }) rfl rfl]
    exact caught hr hc hmatches hattempting rfl rfl
  | committed hp =>
    rw [RetryWorld.book_committed (d := { c with phase := .committed }) rfl rfl]
    apply put hr hc rfl rfl
    have hpos := LegCall.left_pos (hmatches.attempting.mp hattempting)
    rw [RetryClient.left_attempting hattempting]
    show 0 < _
    omega

theorem step (h : first.Sound w) (hstep : retryStep w e = some w') (hstarts : ¬ e.Starts) :
    ∃ n, w.Advances w' n := by
  cases retryStep_move hstep with
  | started => exact absurd trivial hstarts
  | sent n r c code legs hr hc hattempting hattempt => exact ⟨n,book h hr hc hattempting hattempt⟩
  | failed n r c code hr hc hattempting =>
    exact ⟨n,caught hr hc (h.matches_of hr hc) hattempting rfl rfl⟩
  | lostReply n r c code hr hc hattempting hp hcode =>
    exact ⟨n,caught hr hc (h.matches_of hr hc) hattempting rfl rfl⟩
  | woken n r hr hsleeping =>
    obtain ⟨c,hc,hmatches⟩ := h.matching hr
    have hremain := (hmatches.sleeping hsleeping).2
    refine ⟨n,put hr hc rfl rfl ?_⟩
    rw [RetryClient.left_attempting rfl]
    show (r.maxAttempts - (r.attempt + 1)) * 11 + 10 < r.left c
    rw [RetryClient.left,hsleeping]
    dsimp only
    omega

private theorem bound (h : w.Advances w' n) (hbound : ∀ m, N ≤ m → w.client m = none) :
    ∀ m, N ≤ m → w'.client m = none := by
  intro m hm
  rw [h.client m]
  · exact hbound m hm
  · rintro rfl
    exact h.known (hbound _ hm)

private theorem sum_lt (h : w.Advances w' n) (hbound : ∀ m, N ≤ m → w.client m = none) :
    ∑ m ∈ Finset.range N, w'.left m < ∑ m ∈ Finset.range N, w.left m := by
  have hn : n < N := by
    by_contra hout
    exact h.known (hbound n (Nat.not_lt.mp hout))
  refine sum_left_lt hn (fun m hm => ?_) h.less
  rw [RetryWorld.left,RetryWorld.left,h.client m hm,h.call m hm]

end RetryWorld.Advances

/-- All clients have numbers below `N`. -/
structure RetryWorld.Numbered (first : RetryWorld) (N : Nat) (w : RetryWorld) : Prop where
  sound : first.Sound w
  bound : ∀ m, N ≤ m → w.client m = none

namespace RetryWorld.Numbered

/-- A run in which nobody starts is no longer than what there is left to do. -/
theorem length_le {es : List RetryEvent} {t : RetryWorld} (h : first.Numbered N w)
    (hes : ∀ e ∈ es, ¬ e.Starts) (hrun : run retryStep w es = some t) :
    es.length + ∑ m ∈ Finset.range N, t.left m ≤ ∑ m ∈ Finset.range N, w.left m := by
  have hvariant : es.countP (fun _ => true) + ∑ m ∈ Finset.range N, t.left m ≤
      ∑ m ∈ Finset.range N, w.left m := by
    apply run_variant (fun _ => true) (fun v : RetryWorld => ∑ m ∈ Finset.range N, v.left m) ?_ ?_
      h (along_of_forall hes w) hrun
    · intro v e v' hv he hstep
      obtain ⟨n,hadvances⟩ := Advances.step hv.sound hstep he
      exact ⟨hv.sound.step hstep,hadvances.bound hv.bound⟩
    · intro v e v' hv he hstep
      obtain ⟨n,hadvances⟩ := Advances.step hv.sound hstep he
      exact hadvances.sum_lt hv.bound
  rwa [List.countP_true] at hvariant

theorem reachable (hfirst : first.Idle) (h : Reachable retryStep (· = first) w) :
    ∃ N, first.Numbered N w := by
  induction h with
  | start hw =>
    subst hw
    exact ⟨0,.start hfirst,fun m _ => by rw [hfirst.client]⟩
  | @next s t e _ _ hstep ih =>
    obtain ⟨N,hs⟩ := ih
    by_cases hstarts : e.Starts
    · cases retryStep_move hstep with
      | started n strategy label a b amount maxAttempts plan r c =>
        refine ⟨max N (n + 1),hs.sound.step hstep,fun m hm => ?_⟩
        have hother : m ≠ n := by omega
        rw [← hs.bound m (by omega)]
        exact Function.update_of_ne hother _ _
      | _ => exact absurd hstarts id
    · obtain ⟨n,hadvances⟩ := Advances.step hs.sound hstep hstarts
      exact ⟨N,hs.sound.step hstep,hadvances.bound hs.bound⟩

end RetryWorld.Numbered

/-- A statement that cannot run waits for a row that another leg has locked. -/
theorem blocked_of_none {legs : LegsWorld} (hopen : c.phase.hasEnded = false)
    (h : legs.runLegAttempt n c = none) :
    ∃ k ticket, c.target = some k ∧ c.waiting = some ticket ∧ (legs.accounts k).version n = none := by
  have hwrite : ∀ k f next, c.target = some k → legs.writeRow n c k f next = none →
      ∃ k ticket, c.target = some k ∧ c.waiting = some ticket ∧
        (legs.accounts k).version n = none := by
    intro k f next htarget hnone
    unfold LegsWorld.writeRow at hnone
    split at hnone
    next hversion =>
      split at hnone
      next ticket hwaiting => exact ⟨k,ticket,htarget,hwaiting,hversion⟩
      · cases hnone
    · split at hnone <;> cases hnone
  unfold LegsWorld.runLegAttempt at h
  split at h
  next hp => exact hwrite _ _ _ (by rw [LegCall.target,hp]) h
  next hp => exact hwrite _ _ _ (by rw [LegCall.target,hp]) h
  next hp => exact hwrite _ _ _ (by rw [LegCall.target,hp]) h
  next hp => exact hwrite _ _ _ (by rw [LegCall.target,hp]) h
  · cases h
  next h₁ h₂ h₃ h₄ h₅ =>
    cases hp : c.phase with
    | lockingFirst => exact absurd hp h₁
    | lockingSecond => exact absurd hp h₂
    | debiting => exact absurd hp h₃
    | crediting => exact absurd hp h₄
    | committing => exact absurd hp h₅
    | _ =>
      rw [hp] at hopen
      cases hopen

namespace RetryWorld.Sound

private theorem exists_waitsFor (h : first.Sound w) (hr : w.client n = some r)
    (hattempting : r.phase = .attempting) (hblocked : retryStep w (.query n) = none) :
    ∃ m q, w.client m = some q ∧ q.phase = .attempting ∧
      WaitsFor w.legs.accounts.holder w.legs.request n m := by
  obtain ⟨c,hc,hmatches⟩ := h.matching hr
  have hnone : w.legs.runLegAttempt n c = none := by
    simpa [retryStep,hr,hc,hattempting] using hblocked
  obtain ⟨k,ticket,htarget,hwaiting,hversion⟩ :=
    blocked_of_none (hmatches.attempting.mp hattempting) hnone
  have hholder : ∃ m, w.legs.accounts.holder k = some m ∧ m ≠ n := by
    by_contra hno
    have hsome : ((w.legs.accounts k).version n).isSome = true := by
      apply RowVersions.version_isSome.mpr
      intro m hm
      by_contra hne
      exact hno ⟨m,hm,hne⟩
    rw [hversion] at hsome
    cases hsome
  obtain ⟨m,hm,_⟩ := hholder
  obtain ⟨d,hd,hlocks⟩ := (h.legs.held m k).mp hm
  rcases h.clients m with ⟨_,hno⟩ | ⟨q,d',hq,hd',hmatches'⟩
  · rw [hd] at hno
    cases hno
  rw [hd] at hd'
  cases hd'
  have hopen : d.phase.hasEnded = false := by
    by_contra hended
    rw [locks_of_hasEnded (Bool.eq_true_of_not_eq_false hended)] at hlocks
    cases hlocks
  refine ⟨m,q,hq,hmatches'.attempting.mpr hopen,k,ticket,?_,.inl hm⟩
  simp [LegsWorld.request,hc,LegCall.request,hwaiting,htarget]

/-- The victim that the server picks waits. -/
theorem fail_enabled (h : first.Sound w) (hr : w.client n = some r)
    (hattempting : r.phase = .attempting) (hblocked : retryStep w (.query n) = none) :
    (retryStep w (.fail n (some DEADLOCK_DETECTED_SQLSTATE))).isSome = true := by
  obtain ⟨c,hc,hmatches⟩ := h.matching hr
  have hnone : w.legs.runLegAttempt n c = none := by
    simpa [retryStep,hr,hc,hattempting] using hblocked
  obtain ⟨_,ticket,_,hwaiting,_⟩ := blocked_of_none (hmatches.attempting.mp hattempting) hnone
  simp [retryStep,hr,hc,hattempting,hwaiting]

end RetryWorld.Sound

/-- Somebody can go on: with a statement, with the next attempt, or as the victim of a deadlock. -/
def RetryWorld.CanGoOn (w : RetryWorld) : Prop :=
  ∃ n, (retryStep w (.query n)).isSome = true ∨ (retryStep w (.wake n)).isSome = true ∨
    Relation.TransGen (WaitsFor w.legs.accounts.holder w.legs.request) n n ∧
      (retryStep w (.fail n (some DEADLOCK_DETECTED_SQLSTATE))).isSome = true

private theorem RetryWorld.Numbered.canGoOn (h : first.Numbered N w) (hr : w.client n = some r)
    (hopen : r.over = false) : w.CanGoOn := by
  by_contra hstuck
  have hquery : ∀ n, retryStep w (.query n) = none := by
    intro n
    rw [← Option.not_isSome_iff_eq_none]
    exact fun hsome => hstuck ⟨n,.inl hsome⟩
  have hattempting : ∀ n r, w.client n = some r → r.over = false → r.phase = .attempting := by
    intro n r hr hopen
    cases hphase : r.phase with
    | attempting => rfl
    | sleeping =>
      have hwake : (retryStep w (.wake n)).isSome = true := by simp [retryStep,hr,hphase]
      exact absurd ⟨n,.inr (.inl hwake)⟩ hstuck
    | returned outcome => simp [RetryClient.over,hphase] at hopen
    | threw => simp [RetryClient.over,hphase] at hopen
  let waiting := (Finset.range N).filter fun n =>
    ∃ r, w.client n = some r ∧ r.phase = .attempting
  have hmem : ∀ n r, w.client n = some r → r.phase = .attempting → n ∈ waiting := by
    intro n r hr hphase
    refine Finset.mem_filter.mpr ⟨?_,r,hr,hphase⟩
    rw [Finset.mem_range]
    by_contra hout
    rw [h.bound n (Nat.not_lt.mp hout)] at hr
    cases hr
  have hne : waiting.Nonempty := ⟨n,hmem n r hr (hattempting n r hr hopen)⟩
  obtain ⟨victim,hvictim,hcycle⟩ := exists_cycle hne fun n hn => by
    obtain ⟨_,r,hr,hphase⟩ := Finset.mem_filter.mp hn
    obtain ⟨m,q,hq,hqphase,hwaits⟩ := h.sound.exists_waitsFor hr hphase (hquery n)
    exact ⟨m,hmem m q hq hqphase,hwaits⟩
  obtain ⟨_,q,hq,hqphase⟩ := Finset.mem_filter.mp hvictim
  have hfail := h.sound.fail_enabled hq hqphase (hquery victim)
  exact hstuck ⟨victim,.inr (.inr ⟨hcycle,hfail⟩)⟩

/-- Without newcomers a run comes to its end, and it does not end before all clients are over. -/
structure RetryWorld.Settles (w : RetryWorld) : Prop where
  bounded : ∃ bound, ∀ es t, (∀ e ∈ es, ¬ e.Starts) → run retryStep w es = some t →
    es.length ≤ bound
  canGoOn : ∀ n r, w.client n = some r → r.over = false → w.CanGoOn

theorem runLegWithRetry_settles (hfirst : first.Idle) (h : Reachable retryStep (· = first) w) :
    w.Settles := by
  obtain ⟨N,hnumbered⟩ := RetryWorld.Numbered.reachable hfirst h
  refine ⟨⟨∑ m ∈ Finset.range N, w.left m,fun es t hes hrun => ?_⟩,fun n r hr hopen => ?_⟩
  · exact Nat.le_trans (Nat.le_add_right _ _) (hnumbered.length_le hes hrun)
  · exact hnumbered.canGoOn hr hopen

/-- Each of the two has locked its own row, and neither statement can run. -/
def bothWaiting : List RetryEvent := againstEachOther.take 6

theorem bothWaiting_settles :
    ∃ w, run retryStep twoClients bothWaiting = some w ∧ w.Settles ∧
      (retryStep w (.query 0)).isNone = true ∧ (retryStep w (.query 1)).isNone = true := by
  have hidle : twoClients.Idle := ⟨⟨fun _ => rfl,rfl,rfl⟩,rfl⟩
  have hrun : (run retryStep twoClients bothWaiting).any (fun w =>
      (retryStep w (.query 0)).isNone && (retryStep w (.query 1)).isNone) = true := by
    decide +kernel
  obtain ⟨w,hw,hstuck,hreachable⟩ := exists_run_of_any hrun
  exact ⟨w,hw,runLegWithRetry_settles hidle hreachable,by simpa using hstuck⟩

end SystemsLab.Deadlocks
