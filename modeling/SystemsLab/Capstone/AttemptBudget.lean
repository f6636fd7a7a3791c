import SystemsLab.Capstone.PipelineInvariant
import Mathlib.Data.Finset.Prod
import Mathlib.Order.Interval.Finset.Nat

/-!
# The attempt budget of an event

`attempts` grows with every claim, but only `markPublishFailed` compares it with
`max_attempts`. An event whose last claim is lost to a crash is reclaimed over budget. The
sends made under one claim stay within the retry budget in every run.
-/

namespace SystemsLab.Capstone

open SystemsLab.Outbox SystemsLab.Resilience

def PipelineWorld.state (w : PipelineWorld) : OutboxState EventPayload where
  rows := w.rows
  clock := w.clock
  log := w.log
  current v := (w.worker v).lease

/-- Two invocations of `send` made under different claims or in different attempts. -/
def DistinctCalls (a b : SendCall) : Prop :=
  a.eventId = b.eventId → a.number = b.number → a.attempt ≠ b.attempt

structure PipelineWorld.Sound (f : Fleet) (w : PipelineWorld) : Prop where
  table : w.state.Sound
  carried : ∀ v event, (w.worker v).phase.event = some event →
    ∃ l, (w.worker v).lease = some l ∧ l.item = event.id
  calls : ∀ s ∈ w.sends, 1 ≤ s.attempt ∧ s.attempt ≤ (f.optsOf s.workerId).maxAttempts ∧
    ∃ l ∈ leasesOf s.eventId w.log, l.number = s.number ∧ l.holder = s.workerId
  distinct : w.sends.Pairwise DistinctCalls
  used : ∀ v l k, (w.worker v).lease = some l → (w.worker v).phase.used = some k →
    ∀ s ∈ w.sends, s.eventId = l.item → s.number = l.number → s.attempt ≤ k

theorem PipelineWorld.Sound.frame {f : Fleet} {w w' : PipelineWorld} (h : w.Sound f)
    (htable : OutboxState.Sound { w'.state with current := w.state.current })
    (hleases : ∀ i, leasesOf i w'.log = leasesOf i w.log) (hsends : w'.sends = w.sends)
    {v : String} {b : ProtectedWorker} (hworker : w'.worker = Function.update w.worker v b)
    (hlease : b.lease = (w.worker v).lease ∧ b.phase.event = (w.worker v).phase.event ∨
      b.lease = none ∧ b.phase.event = none)
    (hused : ∀ k, b.phase.used = some k → (w.worker v).phase.used = some k) : w'.Sound f := by
  have hself : w'.worker v = b := by
    rw [hworker,Function.update_self]
  have hother : ∀ u, u ≠ v → w'.worker u = w.worker u := by
    intro u hu
    rw [hworker,Function.update_of_ne hu]
  have hcurrent : ∀ u l, (w'.worker u).lease = some l → (w.worker u).lease = some l := by
    intro u l hl
    by_cases hu : u = v
    · subst hu
      rw [hself] at hl
      rcases hlease with ⟨heq,_⟩ | ⟨hnone,_⟩
      · rwa [heq] at hl
      · rw [hnone] at hl
        cases hl
    · rwa [hother u hu] at hl
  refine ⟨htable.abandoned hcurrent,?_,?_,?_,?_⟩
  · intro u event hu
    by_cases huv : u = v
    · subst huv
      rw [hself] at hu ⊢
      rcases hlease with ⟨heq,hevent⟩ | ⟨_,hnone⟩
      · rw [heq]
        exact h.carried _ event (hevent.symm.trans hu)
      · rw [hnone] at hu
        cases hu
    · rw [hother u huv] at hu ⊢
      exact h.carried u event hu
  · intro s hs
    rw [hsends] at hs
    rw [hleases]
    exact h.calls s hs
  · rw [hsends]
    exact h.distinct
  · intro u l k hl hk
    rw [hsends]
    apply h.used u l k (hcurrent u l hl)
    by_cases huv : u = v
    · subst huv
      rw [hself] at hk
      exact hused k hk
    · rwa [hother u huv] at hk

private theorem PipelineWorld.Sound.claimed {f : Fleet} {w w' : PipelineWorld} (h : w.Sound f)
    {v : String} {now t : Int} {old : OutboxRow EventPayload} {event : ClaimedEvent}
    {b : ProtectedWorker} (hold : old ∈ w.rows) (hnow : now ≤ w.clock)
    (hc : old.claimable now = true) (hid : event.id = old.id)
    (hrows : w'.rows = updateWhere (·.id == old.id) (·.claim v t) w.rows)
    (hlog : w'.log = .granted (old.lease v t) w.clock::w.log) (hsends : w'.sends = w.sends)
    (hclock : w'.clock = w.clock) (hworker : w'.worker = Function.update w.worker v b)
    (hb : b.phase = .claimed event ∧ b.lease = some (old.lease v t) ∨
      b = (w.worker v).halt) : w'.Sound f := by
  have hself : w'.worker v = b := by
    rw [hworker,Function.update_self]
  have hother : ∀ u, u ≠ v → w'.worker u = w.worker u := by
    intro u hu
    rw [hworker,Function.update_of_ne hu]
  have htable := h.table.claimed hold hnow hc v (t := t)
  have hgrow : ∀ i, ∀ l ∈ leasesOf i w.log, l ∈ leasesOf i w'.log := by
    intro i l hl
    rw [hlog]
    exact mem_leasesOf_cons hl _
  refine ⟨?_,?_,?_,?_,?_⟩
  · show OutboxState.Sound ⟨w'.rows,w'.clock,w'.log,_⟩
    rw [hrows,hclock,hlog]
    apply htable.abandoned
    intro u l hl
    show Function.update w.state.current v (some (old.lease v t)) u = some l
    by_cases hu : u = v
    · subst hu
      rw [hself] at hl
      rw [Function.update_self]
      rcases hb with ⟨_,hlease⟩ | rfl
      · rw [← hl,hlease]
      · cases hl
    · rw [hother u hu] at hl
      rw [Function.update_of_ne hu]
      exact hl
  · intro u ev hu
    by_cases huv : u = v
    · subst huv
      rw [hself] at hu ⊢
      rcases hb with ⟨hphase,hlease⟩ | rfl
      · rw [hphase] at hu
        cases hu
        exact ⟨_,hlease,hid.symm⟩
      · cases hu
    · rw [hother u huv] at hu ⊢
      exact h.carried u ev hu
  · intro s hs
    rw [hsends] at hs
    obtain ⟨hone,hmax,l,hl,hrest⟩ := h.calls s hs
    exact ⟨hone,hmax,l,hgrow _ l hl,hrest⟩
  · rw [hsends]
    exact h.distinct
  · intro u l k hl hk s hs hse hsn
    rw [hsends] at hs
    by_cases huv : u = v
    · subst huv
      rw [hself] at hl hk
      rcases hb with ⟨hphase,hlease⟩ | rfl
      · rw [hlease] at hl
        cases hl
        obtain ⟨_,_,l,hl,hln,_⟩ := h.calls s hs
        rw [hse] at hl
        have hle := h.table.leases.number_le hl
        have hgrants : w.state.leases.grants old.id = old.attempts :=
          LeaseTable.ofRows_grants h.table.keys hold
        change l.number ≤ w.state.leases.grants old.id at hle
        change s.number = old.attempts + 1 at hsn
        omega
      · cases hl
    · rw [hother u huv] at hl hk
      exact h.used u l k hl hk s hs hse hsn

private theorem PipelineWorld.Sound.sent {f : Fleet} {w w' : PipelineWorld} (h : w.Sound f)
    {v : String} {event : ClaimedEvent} {attempt : Nat} {b : ProtectedWorker} {key : String}
    (hevent : (w.worker v).phase.event = some event)
    (hused : (w.worker v).phase.used = some attempt)
    (hle : attempt + 1 ≤ (f.optsOf v).maxAttempts) (hrows : w'.rows = w.rows)
    (hlog : w'.log = w.log) (hclock : w'.clock = w.clock)
    (hsends : w'.sends =
      ⟨v,event.id,((w.worker v).lease.map Lease.number).getD 0,attempt + 1,key⟩::w.sends)
    (hworker : w'.worker = Function.update w.worker v b)
    (hlease : b.lease = (w.worker v).lease) (hbevent : b.phase.event = some event)
    (hbused : b.phase.used = some (attempt + 1)) : w'.Sound f := by
  have hself : w'.worker v = b := by
    rw [hworker,Function.update_self]
  have hother : ∀ u, u ≠ v → w'.worker u = w.worker u := by
    intro u hu
    rw [hworker,Function.update_of_ne hu]
  have hcurrent : ∀ u, (w'.worker u).lease = (w.worker u).lease := by
    intro u
    by_cases hu : u = v
    · subst hu
      rw [hself,hlease]
    · rw [hother u hu]
  obtain ⟨l,hl,hitem⟩ := h.carried v event hevent
  have htaken := h.table.taken v l hl
  have hholder := (h.table.own v l hl).1
  rw [hl] at hsends
  refine ⟨?_,?_,?_,?_,?_⟩
  · show OutboxState.Sound ⟨w'.rows,w'.clock,w'.log,_⟩
    rw [hrows,hclock,hlog]
    apply h.table.abandoned
    intro u k hk
    exact (hcurrent u).symm.trans hk
  · intro u ev hu
    rw [hcurrent]
    by_cases huv : u = v
    · subst huv
      rw [hself,hbevent] at hu
      cases hu
      exact ⟨l,hl,hitem⟩
    · rw [hother u huv] at hu
      exact h.carried u ev hu
  · intro s hs
    rw [hsends] at hs
    rw [hlog]
    cases hs with
    | head => exact ⟨Nat.le_add_left 1 attempt,hle,l,hitem ▸ htaken,rfl,hholder⟩
    | tail _ hs => exact h.calls s hs
  · rw [hsends]
    refine List.pairwise_cons.mpr ⟨fun s hs he hn ha => ?_,h.distinct⟩
    have hbound := h.used v l attempt hl hused s hs (he.symm.trans hitem.symm) hn.symm
    change attempt + 1 = s.attempt at ha
    omega
  · intro u k n hk hn s hs hse hsn
    rw [hcurrent] at hk
    rw [hsends] at hs
    by_cases huv : u = v
    · subst huv
      rw [hself,hbused] at hn
      cases hn
      cases hs with
      | head => exact le_rfl
      | tail _ hs =>
        have := h.used _ k attempt hk hused s hs hse hsn
        omega
    · rw [hother u huv] at hn
      cases hs with
      | head =>
        have hku := h.table.taken u k hk
        have hkl : k.item = l.item := hse.symm.trans hitem.symm
        rw [hkl] at hku
        have heq := h.table.leases.eq_of_number hku htaken hsn.symm
        have hholder' := (h.table.own u k hk).1
        rw [heq,hholder] at hholder'
        exact absurd hholder'.symm huv
      | tail _ hs => exact h.used u k n hk hn s hs hse hsn

theorem PipelineWorld.Sound.step {f : Fleet} {w w' : PipelineWorld} {e : PipelineEvent}
    (h : w.Sound f) (hs : pipelineStep f w e = some w') : w'.Sound f := by
  cases pipelineStep_move hs with
  | claimed old event b n _ _ hnow hold hid _ hrows hlog hsends _ hclock hworker hb =>
    obtain ⟨hmem,hc,_⟩ := selectSkipLocked_some hold
    exact h.claimed hmem hnow hc hid hrows hlog hsends hclock hworker hb
  | @marked v now commit event g b hg hrows hlog hsends _ hclock hworker hcont =>
    have hevent : (w.worker v).phase.event = some event := by
      rcases hg with ⟨hp,_⟩ | ⟨⟨_,hp⟩,_⟩ <;> rw [hp] <;> rfl
    obtain ⟨l,hl,hitem⟩ := h.carried v event hevent
    have hfinal : Finalises g := by
      rcases hg with ⟨_,rfl⟩ | ⟨_,rfl⟩
      · exact finalises_publish now
      · exact finalises_fail
    have htable := h.table.finalised hfinal (show w.state.current v = some l from hl)
    rw [hl] at hlog
    apply h.frame _ _ hsends hworker hcont.lease hcont.used
    · show OutboxState.Sound ⟨w'.rows,w'.clock,w'.log,_⟩
      rw [hrows,hclock,hlog,← hitem]
      exact htable
    · intro i
      rw [hlog]
      rfl
  | sent v event attempt b key hevent hused hle hrows hlog _ hclock hsends hworker hlease hbe hbu =>
    exact h.sent hevent hused hle hrows hlog hclock hsends hworker hlease hbe hbu
  | @turnedAway v event b hp hrows hlog hsends _ hclock hworker hlease hphase =>
    apply h.frame _ _ hsends hworker (.inl ⟨hlease,?_⟩) ?_
    · show OutboxState.Sound ⟨w'.rows,w'.clock,w'.log,_⟩
      rw [hrows,hclock,hlog]
      exact h.table
    · intro i
      rw [hlog]
    · rw [hphase,hp]
      rfl
    · rw [hphase]
      nofun
  | moved v b hsame hclock hworker hcont =>
    apply h.frame _ _ hsame.sends hworker hcont.lease hcont.used
    · show OutboxState.Sound ⟨w'.rows,w'.clock,w'.log,_⟩
      rw [hsame.rows,hsame.log]
      exact h.table.ticked_to hclock
    · intro i
      rw [hsame.log]

theorem PipelineWorld.sound_of_fresh {f : Fleet} {w : PipelineWorld} (h : w.Fresh) :
    w.Sound f := by
  obtain ⟨hkeys,hworker,_,hsends,_,_,hlog,_,hrows⟩ := h
  refine ⟨?_,?_,?_,?_,?_⟩
  · apply OutboxState.sound_of_fresh
    refine ⟨hkeys,hlog,fun v => ?_,hrows⟩
    simp [PipelineWorld.state,hworker]
  · simp [hworker,ProtectedPhase.event]
  · simp [hsends]
  · rw [hsends]
    exact .nil
  · simp [hworker]

/-- Sends for one event are told apart by the claim and the attempt that made them. -/
theorem PipelineWorld.Sound.sendsFor_le {f : Fleet} {w : PipelineWorld} (h : w.Sound f)
    {m : Nat} (hm : ∀ v, (f.optsOf v).maxAttempts ≤ m) (eventId : Nat) :
    w.sendsFor eventId ≤ w.claims eventId * m := by
  let own := w.sends.filter (·.eventId == eventId)
  have hown : ∀ s ∈ own, s ∈ w.sends ∧ s.eventId = eventId := by
    intro s hs
    simpa using List.mem_filter.mp hs
  have hnodup : (own.map fun s => (s.number,s.attempt)).Nodup := by
    refine List.pairwise_map.mpr ((h.distinct.filter _).imp_of_mem ?_)
    intro a b ha hb hab heq
    obtain ⟨hn,ht⟩ := Prod.mk.inj heq
    exact hab ((hown a ha).2.trans (hown b hb).2.symm) hn ht
  let numbers := ((leasesOf eventId w.log).map Lease.number).toFinset
  have hsub : (own.map fun s => (s.number,s.attempt)).toFinset ⊆ numbers ×ˢ Finset.Icc 1 m := by
    intro p hp
    obtain ⟨s,hs,rfl⟩ := List.mem_map.mp (List.mem_toFinset.mp hp)
    obtain ⟨hmem,hid⟩ := hown s hs
    obtain ⟨hone,hmax,l,hl,hn,_⟩ := h.calls s hmem
    rw [hid] at hl
    refine Finset.mem_product.mpr ⟨?_,?_⟩
    · exact List.mem_toFinset.mpr (List.mem_map.mpr ⟨l,hl,hn⟩)
    · exact Finset.mem_Icc.mpr ⟨hone,hmax.trans (hm _)⟩
  have hcard := Finset.card_le_card hsub
  rw [List.toFinset_card_of_nodup hnodup,List.length_map,Finset.card_product,
    Nat.card_Icc,Nat.add_sub_cancel] at hcard
  have hnumbers : numbers.card ≤ w.claims eventId := by
    have hle := List.toFinset_card_le ((leasesOf eventId w.log).map Lease.number)
    rwa [List.length_map] at hle
  calc w.sendsFor eventId = own.length := List.countP_eq_length_filter
    _ ≤ numbers.card * m := hcard
    _ ≤ w.claims eventId * m := Nat.mul_le_mul_right m hnumbers

/-- Every event is claimed at most `max_attempts` times, and sent at most `max_attempts`
times the retry budget of its claims. -/
def PipelineWorld.Budgeted (f : Fleet) (w : PipelineWorld) : Prop :=
  ∀ row ∈ w.rows, w.claims row.id ≤ row.maxAttempts.toNat ∧
    ∀ m, (∀ v, (f.optsOf v).maxAttempts ≤ m) →
      w.sendsFor row.id ≤ row.maxAttempts.toNat * m

/-- What the claim query picks. -/
def PipelineWorld.candidate (w : PipelineWorld) (now : Int) (locked : Nat → Bool) :
    Option (OutboxRow EventPayload) :=
  selectSkipLocked (·.claimable now) (fun row => locked row.id) OutboxRow.age w.rows

/-- A pending event may be tried at all, and a lapsed claim was not the last one. -/
def InBudget (row : OutboxRow EventPayload) : Prop :=
  (row.status = .pending → 1 ≤ row.maxAttempts) ∧
    (row.status = .processing → (row.attempts : Int) < row.maxAttempts)

/-- A committed claim picks an event within its budget. -/
def ClaimInBudget (w : PipelineWorld) : PipelineEvent → Prop
  | .claim _ now locked commit =>
    commit.applied = true → ∀ row, w.candidate now locked = some row → InBudget row
  | _ => True

instance : DecidablePred InBudget := fun _ => instDecidableAnd

instance : ∀ w e, Decidable (ClaimInBudget w e)
  | w, .claim _ now locked commit => inferInstanceAs (Decidable (commit.applied = true →
      ∀ row, w.candidate now locked = some row → InBudget row))
  | _, .finish _ => isTrue trivial
  | _, .enter _ => isTrue trivial
  | _, .settle _ _ _ => isTrue trivial
  | _, .resume _ => isTrue trivial
  | _, .timeout _ => isTrue trivial
  | _, .wake _ => isTrue trivial
  | _, .record _ _ => isTrue trivial
  | _, .mark _ _ _ => isTrue trivial
  | _, .crash _ => isTrue trivial
  | _, .advance _ => isTrue trivial

/-- No event has been claimed over budget, and a pending one has a claim left. -/
def PipelineWorld.Frugal (w : PipelineWorld) : Prop :=
  ∀ row ∈ w.rows, row.attempts ≤ row.maxAttempts.toNat ∧
    (row.status = .pending → row.attempts = 0 ∨ (row.attempts : Int) < row.maxAttempts)

private theorem PipelineWorld.Sound.claims_eq {f : Fleet} {w : PipelineWorld} (h : w.Sound f)
    {row : OutboxRow EventPayload} (hrow : row ∈ w.rows) : w.claims row.id = row.attempts :=
  (h.table.attempts hrow).symm

private theorem PipelineWorld.Frugal.budgeted {f : Fleet} {w : PipelineWorld} (h : w.Sound f)
    (hf : w.Frugal) : w.Budgeted f := by
  intro row hrow
  have hclaims : w.claims row.id ≤ row.maxAttempts.toNat := by
    rw [h.claims_eq hrow]
    exact (hf row hrow).1
  exact ⟨hclaims,fun m hm =>
    (h.sendsFor_le hm row.id).trans (Nat.mul_le_mul_right m hclaims)⟩

private theorem frugal_fail {row : OutboxRow EventPayload}
    (hrow : row.attempts ≤ row.maxAttempts.toNat) :
    row.fail.attempts ≤ row.fail.maxAttempts.toNat ∧ (row.fail.status = .pending →
      row.fail.attempts = 0 ∨ (row.fail.attempts : Int) < row.fail.maxAttempts) := by
  refine ⟨hrow,fun hs => .inr ?_⟩
  by_contra hle
  simp only [OutboxRow.fail] at hs hle
  rw [if_pos (by omega)] at hs
  cases hs

private theorem InBudget.succ_le {row : OutboxRow EventPayload} {now : Int} (hin : InBudget row)
    (hc : row.claimable now = true)
    (hpending : row.status = .pending → row.attempts = 0 ∨ (row.attempts : Int) < row.maxAttempts) :
    row.attempts + 1 ≤ row.maxAttempts.toNat := by
  cases hs : row.status with
  | pending =>
    have hone := hin.1 hs
    rcases hpending hs with hzero | hlt
    · omega
    · omega
  | processing =>
    have hlt := hin.2 hs
    omega
  | published => simp [OutboxRow.claimable,hs] at hc
  | failed => simp [OutboxRow.claimable,hs] at hc

private theorem not_inBudget {row : OutboxRow EventPayload} (h : ¬ InBudget row) :
    row.maxAttempts.toNat < row.attempts + 1 := by
  by_contra hle
  apply h
  constructor
  · intro _
    omega
  · intro _
    omega

theorem PipelineWorld.Frugal.step {f : Fleet} {w w' : PipelineWorld} {e : PipelineEvent}
    (h : w.Sound f) (hf : w.Frugal) (hbudget : ClaimInBudget w e)
    (hs : pipelineStep f w e = some w') : w'.Frugal := by
  cases pipelineStep_move hs with
  | @claimed v now locked commit old event b n happlied _ _ hold _ _ hrows =>
    have hin := hbudget happlied old hold
    obtain ⟨hmem,hc,_⟩ := selectSkipLocked_some hold
    intro row hrow
    rw [hrows] at hrow
    obtain ⟨r,hr,rfl⟩ := mem_updateWhere.mp hrow
    split
    · rename_i hid
      obtain rfl := eq_of_key_eq h.table.keys hr hmem (by simpa using hid)
      exact ⟨hin.succ_le hc (hf _ hr).2,nofun⟩
    · exact hf r hr
  | @marked v now commit event g b hg hrows =>
    intro row hrow
    rw [hrows] at hrow
    obtain ⟨r,hr,rfl⟩ := mem_updateWhere.mp hrow
    split
    · rcases hg with ⟨_,rfl⟩ | ⟨_,rfl⟩
      · exact ⟨(hf r hr).1,nofun⟩
      · exact frugal_fail (hf r hr).1
    · exact hf r hr
  | sent _ _ _ _ _ _ _ _ hrows =>
    intro row hrow
    rw [hrows] at hrow
    exact hf row hrow
  | turnedAway _ _ _ hrows =>
    intro row hrow
    rw [hrows] at hrow
    exact hf row hrow
  | moved _ _ hsame =>
    intro row hrow
    rw [hsame.rows] at hrow
    exact hf row hrow

theorem pipelineStep_claim {f : Fleet} {w w' : PipelineWorld} {v : String} {now : Int}
    {locked : Nat → Bool} {commit : Commit} (happlied : commit.applied = true)
    {old : OutboxRow EventPayload} (hold : w.candidate now locked = some old)
    (hs : pipelineStep f w (.claim v now locked commit) = some w') :
    w'.log = .granted (old.lease v (now + DEFAULT_LEASE_MS)) w.clock::w.log := by
  simp only [pipelineStep] at hs
  split at hs
  · split at hs
    · have hclaim : claimNextEvent w.rows locked now v DEFAULT_LEASE_MS =
          (updateWhere (·.id == old.id) (·.claim v (now + DEFAULT_LEASE_MS)) w.rows,
            some { old.claim v (now + DEFAULT_LEASE_MS) with }) := by
        unfold PipelineWorld.candidate at hold
        unfold claimNextEvent claimRow
        rw [hold]
        rfl
      rw [hclaim] at hs
      cases commit with
      | acknowledged =>
        cases hs
        rfl
      | replyLost =>
        cases hs
        rfl
      | rolledBack => cases happlied
    · cases hs
  · cases hs

private theorem pipelineStep_claims {f : Fleet} {w w' : PipelineWorld} {e : PipelineEvent}
    (hs : pipelineStep f w e = some w') :
    (∀ row ∈ w.rows, ∃ row' ∈ w'.rows, row'.id = row.id ∧ row'.maxAttempts = row.maxAttempts) ∧
      ∀ i, w.claims i ≤ w'.claims i := by
  have hupdate : ∀ (p : OutboxRow EventPayload → Bool) g,
      w'.rows = updateWhere p g w.rows →
      (∀ r, (g r).id = r.id ∧ (g r).maxAttempts = r.maxAttempts) →
      ∀ row ∈ w.rows, ∃ row' ∈ w'.rows, row'.id = row.id ∧ row'.maxAttempts = row.maxAttempts := by
    intro p g hrows hg row hrow
    rw [hrows]
    refine ⟨_,mem_updateWhere.mpr ⟨row,hrow,rfl⟩,?_⟩
    split
    · exact hg row
    · exact ⟨rfl,rfl⟩
  have hcons : ∀ entry, w'.log = entry::w.log → ∀ i, w.claims i ≤ w'.claims i := by
    intro entry hlog i
    rw [PipelineWorld.claims,PipelineWorld.claims,hlog]
    exact leasesOf_length_le entry i w.log
  have hsame : w'.log = w.log → ∀ i, w.claims i ≤ w'.claims i := by
    intro hlog i
    rw [PipelineWorld.claims,PipelineWorld.claims,hlog]
  cases pipelineStep_move hs with
  | claimed _ _ _ _ _ _ _ _ _ _ hrows hlog =>
    exact ⟨hupdate _ _ hrows fun _ => ⟨rfl,rfl⟩,hcons _ hlog⟩
  | @marked v _ _ _ g _ hg hrows hlog =>
    refine ⟨hupdate _ _ hrows fun r => ?_,?_⟩
    · rcases hg with ⟨_,rfl⟩ | ⟨_,rfl⟩ <;> exact ⟨rfl,rfl⟩
    · cases hl : (w.worker v).lease with
      | none =>
        rw [hl] at hlog
        exact hsame hlog
      | some l =>
        rw [hl] at hlog
        exact hcons _ hlog
  | sent _ _ _ _ _ _ _ _ hrows hlog =>
    exact ⟨fun row hrow => ⟨row,hrows ▸ hrow,rfl,rfl⟩,hsame hlog⟩
  | turnedAway _ _ _ hrows hlog =>
    exact ⟨fun row hrow => ⟨row,hrows ▸ hrow,rfl,rfl⟩,hsame hlog⟩
  | moved _ _ huntouched =>
    exact ⟨fun row hrow => ⟨row,huntouched.rows ▸ hrow,rfl,rfl⟩,hsame huntouched.log⟩

/-- Some event has been claimed more often than it may be tried. -/
def PipelineWorld.Overdrawn (w : PipelineWorld) : Prop :=
  ∃ row ∈ w.rows, row.maxAttempts.toNat < w.claims row.id

theorem PipelineWorld.Overdrawn.step {f : Fleet} {w w' : PipelineWorld} {e : PipelineEvent}
    (h : w.Overdrawn) (hs : pipelineStep f w e = some w') : w'.Overdrawn := by
  obtain ⟨row,hrow,hlt⟩ := h
  obtain ⟨hrows,hclaims⟩ := pipelineStep_claims hs
  obtain ⟨row',hrow',hid,hmax⟩ := hrows row hrow
  refine ⟨row',hrow',?_⟩
  rw [hid,hmax]
  exact hlt.trans_le (hclaims row.id)

private theorem PipelineWorld.Sound.overdrawn {f : Fleet} {w w' : PipelineWorld} {e : PipelineEvent}
    (h : w.Sound f) (hbudget : ¬ ClaimInBudget w e) (hs : pipelineStep f w e = some w') :
    w'.Overdrawn := by
  cases e with
  | claim v now locked commit =>
    simp only [ClaimInBudget,not_forall] at hbudget
    obtain ⟨happlied,old,hold,hover⟩ := hbudget
    have hlog := pipelineStep_claim happlied hold hs
    have hmem := (selectSkipLocked_some hold).1
    obtain ⟨row,hrow,hid,hmax⟩ := (pipelineStep_claims hs).1 old hmem
    refine ⟨row,hrow,?_⟩
    rw [hid,hmax,PipelineWorld.claims,hlog]
    have hlt := not_inBudget hover
    have hclaims := h.claims_eq hmem
    have hone := leasesOf_granted_self (old.lease v (now + DEFAULT_LEASE_MS)) w.clock w.log
    change leasesOf old.id _ = _::leasesOf old.id w.log at hone
    rw [hone,List.length_cons]
    change (leasesOf old.id w.log).length = old.attempts at hclaims
    omega
  | _ => exact absurd trivial hbudget

/-- A run keeps every event within its budget exactly when each of its claims does. -/
theorem budgeted_iff_claims {f : Fleet} {w w' : PipelineWorld} (h : w.Fresh)
    {es : List PipelineEvent} (hrun : run (pipelineStep f) w es = some w') :
    w'.Budgeted f ↔ Along (pipelineStep f) ClaimInBudget w es := by
  have hfrugal : w.Frugal := by
    intro row hrow
    have hzero := (h.2.2.2.2.2.2.2.2 row hrow).2.2.2
    exact ⟨by omega,fun _ => .inl hzero⟩
  let inv := fun s : PipelineWorld => s.Sound f ∧ s.Frugal
  have hinv : inv w := ⟨PipelineWorld.sound_of_fresh h,hfrugal⟩
  have hbreak : ∀ s e t, inv s → ¬ ClaimInBudget s e → pipelineStep f s e = some t →
      t.Overdrawn := fun s e t hs hok hstep => hs.1.overdrawn hok hstep
  have hover : ∀ s : PipelineWorld, s.Overdrawn → ¬ s.Budgeted f := by
    intro s ⟨row,hrow,hlt⟩ hb
    have := (hb row hrow).1
    omega
  exact run_property_iff_along
    (fun s e t hs hok hstep => ⟨hs.1.step hstep,hs.2.step hs.1 hok hstep⟩) hbreak
    (fun s e t hs hstep => hs.step hstep) (fun s hs => hs.2.budgeted hs.1) hover hinv hrun

/-- One event with a single attempt, and a lone worker whose lease lapses. -/
def oneNotification : PipelineWorld where
  rows := [{ id := 1, publicId := "p", eventType := "OrderConfirmed", maxAttempts := 1
             payload := ⟨"o","c","x@example.com",100⟩ }]
  clock := 0

private theorem oneNotification_fresh : oneNotification.Fresh := by
  refine ⟨by decide,rfl,rfl,rfl,rfl,rfl,rfl,rfl,?_⟩
  simp [oneNotification]

/-- The first worker sends and crashes. After its lease a second one claims the event. -/
def crashAndReclaim : List PipelineEvent :=
  [.claim "a" 0 (fun _ => false) .acknowledged, .enter "a", .crash "a", .advance 5001,
    .claim "b" 5001 (fun _ => false) .acknowledged]

theorem crashAndReclaim_overdrawn : ∃ w, run (pipelineStep {}) oneNotification crashAndReclaim =
    some w ∧ w.claims 1 = 2 ∧ w.rows.map OutboxRow.maxAttempts = [1] ∧ ¬ w.Budgeted {} := by
  obtain ⟨w,hw⟩ := Option.isSome_iff_exists.mp (show
    (run (pipelineStep {}) oneNotification crashAndReclaim).isSome = true by decide)
  have hobs : (run (pipelineStep {}) oneNotification crashAndReclaim).map (fun w =>
      (w.claims 1,w.rows.map fun r => (r.id,r.maxAttempts))) = some (2,[(1,1)]) := by decide
  rw [hw] at hobs
  obtain ⟨hclaims,hrows⟩ := Prod.mk.inj (Option.some.inj hobs)
  obtain ⟨row,hrow⟩ := List.map_eq_singleton_iff.mp hrows
  obtain ⟨hid,hmax⟩ := Prod.mk.inj hrow.2
  refine ⟨w,hw,hclaims,by rw [hrow.1]; simp [hmax],fun hb => ?_⟩
  have hle := (hb row (by rw [hrow.1]; exact List.mem_singleton_self _)).1
  rw [hid,hclaims,hmax] at hle
  exact absurd hle (by decide)

/-- Without the crash the second worker finds nothing to claim. -/
theorem sentAndFailed_budgeted : ∃ w, run (pipelineStep {}) oneNotification
    [.claim "a" 0 (fun _ => false) .acknowledged, .enter "a", .settle 0 .otherError 5,
      .resume "a", .record "a" .acknowledged, .mark "a" 0 .acknowledged, .advance 5001,
      .claim "b" 5001 (fun _ => false) .acknowledged] = some w ∧ w.Budgeted {} := by
  obtain ⟨w,hw⟩ := Option.isSome_iff_exists.mp (show (run (pipelineStep {}) oneNotification
    [.claim "a" 0 (fun _ => false) .acknowledged, .enter "a", .settle 0 .otherError 5,
      .resume "a", .record "a" .acknowledged, .mark "a" 0 .acknowledged, .advance 5001,
      .claim "b" 5001 (fun _ => false) .acknowledged]).isSome = true by decide)
  exact ⟨w,hw,(budgeted_iff_claims oneNotification_fresh hw).mpr (by decide)⟩

end SystemsLab.Capstone
