import SystemsLab.Queue.JobLeases

/-!
# No two live claims on one job

Along runs whose failures fit, each transaction of a worker is a sequence of moves of the
lease table. So claims exclude each other until they lapse or are finalised, and a completed
job is closed.
-/

namespace SystemsLab.Queue

variable {π : Type*}

structure QueueWorld.Sound (w : QueueWorld π) : Prop where
  keys : (w.tables.jobs.map JobRow.id).Nodup
  locks : ∀ job ∈ w.tables.jobs, job.WellLocked
  terminal : ∀ job ∈ w.tables.jobs, job.status = .failed → job.terminal = true
  leases : w.leases.Consistent
  granted : ∀ k claim, (w.worker k).phase.claim = some claim →
    claim.lease.item = claim.job.id ∧ claim.lease ∈ leasesOf claim.job.id w.log

private theorem QueueWorld.Sound.slot {w : QueueWorld π} (h : w.Sound) {job : JobRow π}
    (hjob : job ∈ w.tables.jobs) : w.leases.slot job.id = job.slot :=
  LeaseTable.ofRows_slot h.keys hjob

private theorem QueueWorld.Sound.grants {w : QueueWorld π} (h : w.Sound) {job : JobRow π}
    (hjob : job ∈ w.tables.jobs) : w.leases.grants job.id = job.attempts :=
  LeaseTable.ofRows_grants h.keys hjob

/-- A claim whose number is still the job's count of attempts is the one in its lock
columns. -/
theorem QueueWorld.Sound.current {w : QueueWorld π} (h : w.Sound) {claim : ClaimedJob π}
    (hg : claim.lease ∈ leasesOf claim.job.id w.log) (hitem : claim.lease.item = claim.job.id)
    {job : JobRow π} (hjob : job ∈ w.tables.jobs) (hid : job.id = claim.job.id)
    (hn : job.attempts = claim.job.attempts) {l : Lease Nat String} (hl : job.slot = .held l) :
    l = claim.lease := by
  have hheld : w.leases.slot claim.job.id = .held l := by
    rw [← hid,h.slot hjob,hl]
  have hnumber : claim.lease.number = w.leases.grants claim.lease.item := by
    rw [hitem,← hid,h.grants hjob,hn]
    rfl
  have hhead := h.leases.head_of_number (hitem ▸ hg) hnumber
  rw [hitem] at hhead
  have hnew := h.leases.held claim.job.id l hheld
  exact Option.some.inj (hnew.symm.trans hhead)

private theorem QueueWorld.Sound.grant {w : QueueWorld π} (h : w.Sound) {old : JobRow π}
    (hold : old ∈ w.tables.jobs) {now : Int} (hnow : now ≤ w.clock)
    (hc : old.claimable now = true) (workerId : String) (leaseMs : Int) :
    LeaseTable.Move w.leases (.ofRows JobRow.id JobRow.slot JobRow.attempts
      (updateWhere (·.id == old.id) (·.claim workerId now leaseMs) w.tables.jobs) w.clock
      (.granted ⟨old.id,workerId,old.attempts + 1,now + leaseMs⟩ w.clock::w.log)) := by
  have hf : ∀ job : JobRow π, (job.claim workerId now leaseMs).id = job.id := fun _ => rfl
  rw [LeaseTable.ofRows_update_key h.keys hf hold]
  apply LeaseTable.Move.grant ⟨old.id,workerId,old.attempts + 1,now + leaseMs⟩
  · show old.attempts + 1 = w.leases.grants old.id + 1
    rw [h.grants hold]
  · show w.leases.slot old.id = .free ∨ ∃ l, w.leases.slot old.id = .held l ∧ _
    rw [h.slot hold]
    rcases JobRow.slot_of_claimable (h.locks old hold) hc with hfree | ⟨l,hl,hd⟩
    · exact .inl hfree
    · exact .inr ⟨l,hl,Int.lt_of_lt_of_le hd hnow⟩

private theorem QueueWorld.Sound.ended {w : QueueWorld π} (h : w.Sound) {job : JobRow π}
    (hjob : job ∈ w.tables.jobs) {f : JobRow π → JobRow π} (hid : ∀ r, (f r).id = r.id)
    (hattempts : ∀ r, (f r).attempts = r.attempts) (log : List (LeaseEntry Nat String)) :
    LeaseTable.ofRows JobRow.id JobRow.slot JobRow.attempts
      (updateWhere (fun r => r.id == job.id) f w.tables.jobs) w.clock log =
        { w.leases with
          slot := Function.update w.leases.slot job.id (f job).slot, log := log } := by
  rw [LeaseTable.ofRows_update_key h.keys hid hjob]
  have hgrants : w.leases.grants job.id = (f job).attempts :=
    (h.grants hjob).trans (hattempts job).symm
  have hself := Function.update_eq_self job.id w.leases.grants
  rw [hgrants] at hself
  exact congrArg (fun g => LeaseTable.mk _ g _ _) hself

private theorem QueueWorld.Sound.complete {w : QueueWorld π} (h : w.Sound) {claim : ClaimedJob π}
    (hitem : claim.lease.item = claim.job.id) {job : JobRow π} (hjob : job ∈ w.tables.jobs)
    (hid : job.id = claim.job.id) (now : Int) :
    LeaseTable.Moves w.leases (.ofRows JobRow.id JobRow.slot JobRow.attempts
      (updateWhere (·.id == claim.job.id) (·.complete now) w.tables.jobs) w.clock
      (.settled claim.lease::w.log)) := by
  have hended := h.ended hjob (f := (·.complete now)) (fun _ => rfl) (fun _ => rfl)
    (.settled claim.lease::w.log)
  rw [← hid,hended]
  have hfinish := LeaseTable.Moves.finish w.leases claim.lease
  rw [hitem,← hid] at hfinish
  exact hfinish

private theorem QueueWorld.Sound.fail {w : QueueWorld π} (h : w.Sound) {claim : ClaimedJob π}
    (hitem : claim.lease.item = claim.job.id)
    (hg : claim.lease ∈ leasesOf claim.job.id w.log) {job : JobRow π}
    (hjob : job ∈ w.tables.jobs) (hid : job.id = claim.job.id)
    (hfits : job.spoiledBy w.clock claim = false) (message : String) (now : Int) :
    LeaseTable.Moves w.leases (.ofRows JobRow.id JobRow.slot JobRow.attempts
      (updateWhere (·.id == claim.job.id) (·.fail job.terminal message now) w.tables.jobs)
      w.clock (.settled claim.lease::w.log)) := by
  have hended := h.ended hjob (f := (·.fail job.terminal message now)) (fun _ => rfl)
    (fun _ => rfl) (.settled claim.lease::w.log)
  rw [← hid,hended]
  cases ht : job.terminal with
  | true =>
    have hfinish := LeaseTable.Moves.finish w.leases claim.lease
    rw [hitem,← hid] at hfinish
    exact hfinish
  | false =>
    have hslot : w.leases.slot job.id = .free ∨ ∃ l, w.leases.slot job.id = .held l ∧
        (l = claim.lease ∨ l.deadline < w.clock) := by
      rw [h.slot hjob]
      obtain ⟨hby,huntil⟩ := h.locks job hjob
      cases hs : job.status with
      | pending => exact .inl (by simp [JobRow.slot,hs])
      | processing =>
        obtain ⟨holder,hh⟩ := Option.ne_none_iff_exists'.mp (hby.mp hs)
        obtain ⟨deadline,hd⟩ := Option.ne_none_iff_exists'.mp (huntil.mp hs)
        have hl : job.slot = .held ⟨job.id,holder,job.attempts,deadline⟩ := by
          simp [JobRow.slot,hs,hh,hd]
        refine .inr ⟨_,hl,?_⟩
        by_cases hn : job.attempts = claim.job.attempts
        · exact .inl (h.current hg hitem hjob hid hn hl)
        · simp [JobRow.spoiledBy,hs,hn,hd,ht] at hfits
          exact .inr hfits
      | completed => simp [JobRow.spoiledBy,hs] at hfits
      | failed =>
        have := h.terminal job hjob hs
        rw [ht] at this
        cases this
    rw [hid,← hitem] at hslot
    have hrelease := LeaseTable.Moves.release hslot
    rw [hitem,← hid] at hrelease
    exact hrelease

private theorem QueueWorld.Sound.exists_job {w : QueueWorld π} (h : w.Sound) {claim : ClaimedJob π}
    (hg : claim.lease ∈ leasesOf claim.job.id w.log) :
    ∃ job, rowAt JobRow.id w.tables.jobs claim.job.id = some job := by
  apply Option.ne_none_iff_exists'.mp
  intro hnone
  have hcount := h.leases.count claim.job.id
  have hzero : w.leases.grants claim.job.id = 0 := by
    simp [QueueWorld.leases,LeaseTable.ofRows,hnone]
  have hpos := List.length_pos_of_mem hg
  change (leasesOf claim.job.id w.log).length = w.leases.grants claim.job.id at hcount
  omega

private theorem FailureFits.row {w : QueueWorld π} {k : Nat} {now : Int} {commit : Commit}
    (h : FailureFits w (.fail k now commit)) (happlied : commit.applied = true)
    {claim : ClaimedJob π} {message : String} (hp : (w.worker k).phase = .failing claim message)
    {job : JobRow π} (hjob : job ∈ w.tables.jobs) (hid : job.id = claim.job.id) :
    job.spoiledBy w.clock claim = false := by
  have hs := h happlied
  rw [hp,WorkerPhase.spoils,List.any_eq_false] at hs
  simpa [hid] using hs job hjob

/-- Each event of a run whose failures fit is a sequence of moves of the lease table. -/
theorem QueueWorld.Sound.moves {w w' : QueueWorld π} {e : QueueEvent} (h : w.Sound)
    (hfits : FailureFits w e) (hs : queueStep w e = some w') :
    LeaseTable.Moves w.leases w'.leases := by
  show LeaseTable.Moves _ (.ofRows _ _ _ w'.tables.jobs w'.clock w'.log)
  cases queueStep_move hs with
  | claimed claim hnow hclaim hclock hlog =>
    obtain ⟨old,hold,hc,hjob,hjobs⟩ := claimJob_some hclaim
    rw [hjobs,hclock,hlog,ClaimedJob.lease,hjob]
    exact .single (h.grant hold hnow hc _ _)
  | @completed k now _ _ claim hp htables hclock hlog =>
    have hclaim := h.granted k claim (by rw [hp]; rfl)
    obtain ⟨job,hrow⟩ := h.exists_job hclaim.2
    obtain ⟨hjob,hid⟩ := rowAt_some hrow
    rw [htables,hclock,hlog]
    exact h.complete hclaim.1 hjob hid now
  | @failed k now _ claim message r hp happlied hfail hclock hlog =>
    have hclaim := h.granted k claim (by rw [hp]; rfl)
    obtain ⟨job,hrow,hjobs⟩ := failJob_ok hfail
    obtain ⟨hjob,hid⟩ := rowAt_some hrow
    rw [hjobs,hclock,hlog]
    exact h.fail hclaim.1 hclaim.2 hjob hid (hfits.row happlied hp hjob hid) message now
  | moved htables hclock hlog =>
    rw [htables,hlog]
    exact .single (.tick w'.clock hclock)

theorem JobRow.wellLocked_claim (workerId : String) (now leaseMs : Int) (job : JobRow π) :
    (job.claim workerId now leaseMs).WellLocked := by
  simp [JobRow.WellLocked,JobRow.claim]

private theorem JobRow.wellLocked_complete (now : Int) (job : JobRow π) :
    (job.complete now).WellLocked := by
  simp [JobRow.WellLocked,JobRow.complete]

private theorem JobRow.wellLocked_fail (terminal : Bool) (message : String) (now : Int)
    (job : JobRow π) : (job.fail terminal message now).WellLocked := by
  cases terminal <;> simp [JobRow.WellLocked,JobRow.fail]

private theorem QueueWorld.Sound.rows {w : QueueWorld π} (h : w.Sound) {i : Nat}
    {f : JobRow π → JobRow π} (hid : ∀ r, (f r).id = r.id) (hlock : ∀ r, (f r).WellLocked)
    (hterminal : ∀ r ∈ w.tables.jobs, r.id = i → (f r).status = .failed →
      (f r).terminal = true) :
    ((updateWhere (·.id == i) f w.tables.jobs).map JobRow.id).Nodup ∧
      (∀ job ∈ updateWhere (·.id == i) f w.tables.jobs, job.WellLocked) ∧
      ∀ job ∈ updateWhere (·.id == i) f w.tables.jobs,
        job.status = .failed → job.terminal = true := by
  refine ⟨?_,?_,?_⟩
  · rw [map_updateWhere JobRow.id hid]
    exact h.keys
  · exact forall_mem_updateWhere h.locks (fun r _ _ _ => hlock r) fun _ _ hr _ => hr
  · intro job hjob
    obtain ⟨r,hr,rfl⟩ := mem_updateWhere.mp hjob
    split
    · rename_i hhit
      exact hterminal r hr (by simpa using hhit)
    · exact h.terminal r hr

theorem QueueWorld.Sound.step {w w' : QueueWorld π} {e : QueueEvent} (h : w.Sound)
    (hfits : FailureFits w e) (hs : queueStep w e = some w') : w'.Sound := by
  have hleases : w'.leases.Consistent := h.leases.moves (h.moves hfits hs)
  have hkeep : ∀ k c, (w.worker k).phase.claim = some c → ∀ entry, w'.log = entry::w.log →
      c.lease.item = c.job.id ∧ c.lease ∈ leasesOf c.job.id w'.log := by
    intro k c hc entry hlog
    obtain ⟨hitem,hg⟩ := h.granted k c hc
    rw [hlog]
    exact ⟨hitem,mem_leasesOf_cons hg entry⟩
  cases queueStep_move hs with
  | @claimed k now locked tie _ claim hnow hclaim hclock hlog hcarried =>
    obtain ⟨old,hold,hc,hjob,hjobs⟩ := claimJob_some hclaim
    have hf : ∀ r : JobRow π, (r.claim (w.worker k).result.workerId now
      (w.worker k).leaseMs).id = r.id := fun _ => rfl
    have hrows := h.rows (i := old.id) hf (fun r => r.wellLocked_claim _ _ _)
      (fun r _ _ hr => by simp [JobRow.claim] at hr)
    rw [← hjobs] at hrows
    refine ⟨hrows.1,hrows.2.1,hrows.2.2,hleases,fun v c hv => ?_⟩
    rcases hcarried v c hv with hv | rfl
    · exact hkeep v c hv _ hlog
    · refine ⟨rfl,?_⟩
      rw [hlog]
      show c.lease ∈ leasesOf c.lease.item _
      rw [leasesOf_granted_self]
      exact List.mem_cons_self
  | @completed k now _ _ claim hp htables hclock hlog hcarried =>
    have hf : ∀ r : JobRow π, (r.complete now).id = r.id := fun _ => rfl
    have hrows := h.rows (i := claim.job.id) hf (JobRow.wellLocked_complete now)
      (fun r _ _ hr => by simp [JobRow.complete] at hr)
    have hjobs : w'.tables.jobs =
        updateWhere (·.id == claim.job.id) (·.complete now) w.tables.jobs := by
      rw [htables]
      rfl
    rw [← hjobs] at hrows
    exact ⟨hrows.1,hrows.2.1,hrows.2.2,hleases,
      fun v c hv => hkeep v c (hcarried v c hv) _ hlog⟩
  | @failed k now _ claim message r hp happlied hfail hclock hlog hcarried =>
    obtain ⟨job,hrow,hjobs⟩ := failJob_ok hfail
    obtain ⟨hjob,hid⟩ := rowAt_some hrow
    have hf : ∀ r : JobRow π, (r.fail job.terminal message now).id = r.id := fun _ => rfl
    have hrows := h.rows (i := claim.job.id) hf (JobRow.wellLocked_fail job.terminal message now)
      (fun r hr hrid hst => by
        obtain rfl := eq_of_key_eq h.keys hr hjob (hrid.trans hid.symm)
        cases ht : r.terminal with
        | true => exact ht
        | false => simp [JobRow.fail,ht] at hst)
    rw [← hjobs] at hrows
    exact ⟨hrows.1,hrows.2.1,hrows.2.2,hleases,
      fun v c hv => hkeep v c (hcarried v c hv) _ hlog⟩
  | moved htables hclock hlog hcarried =>
    refine ⟨?_,?_,?_,hleases,fun v c hv => ?_⟩
    · rw [htables]
      exact h.keys
    · rw [htables]
      exact h.locks
    · rw [htables]
      exact h.terminal
    · rw [hlog]
      exact h.granted v c (hcarried v c hv)

theorem QueueWorld.sound_of_fresh {w : QueueWorld π} (h : w.Fresh) : w.Sound := by
  obtain ⟨hkeys,_,hlog,hworker,hjobs⟩ := h
  refine ⟨hkeys,?_,?_,?_,?_⟩
  · intro job hjob
    obtain ⟨hs,hby,hu,_⟩ := hjobs job hjob
    simp [JobRow.WellLocked,hs,hby,hu]
  · intro job hjob hs
    rw [(hjobs job hjob).1] at hs
    cases hs
  · apply LeaseTable.consistent_of_empty
    show (LeaseTable.ofRows _ _ _ w.tables.jobs w.clock w.log).Empty
    rw [hlog]
    apply LeaseTable.empty_ofRows
    intro job hjob
    obtain ⟨hs,_,_,ha⟩ := hjobs job hjob
    refine ⟨ha,fun l hl => ?_⟩
    have hp := (JobRow.slot_held hl).1
    rw [hs] at hp
    cases hp
  · intro k claim hc
    rw [hworker k] at hc
    cases hc

theorem QueueWorld.Sound.completed_step {w w' : QueueWorld π} {e : QueueEvent} (h : w.Sound)
    (hfits : FailureFits w e) (hs : queueStep w e = some w') {id : Nat} {job : JobRow π}
    (hrow : w.job id = some job) (hc : job.status = .completed) :
    ∃ job', w'.job id = some job' ∧ job'.status = .completed := by
  obtain ⟨hjob,hid⟩ := rowAt_some hrow
  have hupdate : ∀ (target : Nat) (f : JobRow π → JobRow π),
      w'.tables.jobs = updateWhere (·.id == target) f w.tables.jobs →
      (∀ r, (f r).id = r.id) → (id = target → (f job).status = .completed) →
      ∃ job', w'.job id = some job' ∧ job'.status = .completed := by
    intro target f hjobs hf hcompleted
    have hat : w'.job id = (w.job id).map fun r => if r.id == target then f r else r := by
      rw [QueueWorld.job,hjobs]
      exact rowAt_updateWhere hf w.tables.jobs id
    rw [hrow] at hat
    refine ⟨_,hat,?_⟩
    by_cases ht : job.id = target
    · simp only [ht,beq_self_eq_true,if_true]
      exact hcompleted (hid.symm.trans ht)
    · simpa [ht] using hc
  cases queueStep_move hs with
  | claimed claim hnow hclaim =>
    obtain ⟨old,hold,hclaimable,_,hjobs⟩ := claimJob_some hclaim
    refine hupdate _ _ hjobs (fun _ => rfl) fun heq => ?_
    obtain rfl := eq_of_key_eq h.keys hjob hold (hid.trans heq)
    simp [JobRow.claimable,hc] at hclaimable
  | @completed k now _ _ claim hp htables =>
    have hjobs : w'.tables.jobs =
        updateWhere (·.id == claim.job.id) (·.complete now) w.tables.jobs := by
      rw [htables]
      rfl
    exact hupdate _ _ hjobs (fun _ => rfl) fun _ => rfl
  | @failed k now _ claim message r hp happlied hfail =>
    obtain ⟨job₂,hrow₂,hjobs⟩ := failJob_ok hfail
    refine hupdate _ _ hjobs (fun _ => rfl) fun heq => ?_
    have hspoiled := hfits.row happlied hp hjob (hid.trans heq)
    simp [JobRow.spoiledBy,hc] at hspoiled
  | moved htables =>
    refine ⟨job,?_,hc⟩
    rw [QueueWorld.job,htables]
    exact hrow

theorem QueueWorld.Sound.completed_run {w w' : QueueWorld π} {es : List QueueEvent}
    (h : w.Sound) (hfits : Along queueStep FailureFits w es)
    (hrun : run queueStep w es = some w') {id : Nat} {job : JobRow π}
    (hrow : w.job id = some job) (hc : job.status = .completed) :
    (∃ job', w'.job id = some job' ∧ job'.status = .completed) ∧
      leasesOf id w'.log = leasesOf id w.log := by
  induction es generalizing w job with
  | nil =>
    obtain rfl : w = w' := by simpa using hrun
    exact ⟨⟨job,hrow,hc⟩,rfl⟩
  | cons e es ih =>
    obtain ⟨m,hm,hrest⟩ := run_cons_some hrun
    obtain ⟨job₁,hrow₁,hc₁⟩ := h.completed_step hfits.1 hm hrow hc
    obtain ⟨hjob,hid⟩ := rowAt_some hrow
    have hclosed : w.leases.slot id = .closed := by
      rw [← hid,h.slot hjob]
      simp [JobRow.slot,hc]
    have hsame := ((h.moves hfits.1 hm).closed hclosed).2
    obtain ⟨hend,hlog⟩ := ih (h.step hfits.1 hm) (hfits.2 m hm) hrest hrow₁ hc₁
    exact ⟨hend,hlog.trans hsame⟩

/-- In every run whose failures fit, live claims exclude each other and a completed job
stays completed and unclaimed. -/
theorem jobs_safe_of_failures_fit {u w : QueueWorld π}
    (hu : ReachableBy queueStep QueueWorld.Fresh FailureFits u) {es : List QueueEvent}
    (hrun : run queueStep u es = some w) (hfits : Along queueStep FailureFits u es) :
    Exclusive w.log ∧ ∀ id job, u.job id = some job → job.status = .completed →
      (∃ job', w.job id = some job' ∧ job'.status = .completed) ∧
        leasesOf id w.log = leasesOf id u.log := by
  have hinv : ∀ v : QueueWorld π, ReachableBy queueStep QueueWorld.Fresh FailureFits v → v.Sound :=
    fun v hv => hv.invariant (fun _ hf => QueueWorld.sound_of_fresh hf)
      fun _ _ _ hs hok hstep => hs.step hok hstep
  have hw := hinv w (hu.run hfits hrun)
  exact ⟨hw.leases.exclusive,
    fun id job hrow hc => (hinv u hu).completed_run hfits hrun hrow hc⟩

/-- One job and three workers; the first one asks for short leases. -/
def oneJob : QueueWorld Unit where
  tables := { jobs := [{ id := 1, publicId := "p", jobType := "send_email", payload := () }] }
  clock := 0
  worker k := { leaseMs := if k = 0 then 10 else 100, result := { workerId := "w" } }

theorem oneJob_fresh : oneJob.Fresh := by
  refine ⟨by decide,rfl,rfl,fun _ => rfl,?_⟩
  simp [oneJob]

def claimNow (k : Nat) (now : Int) : QueueEvent :=
  .claim k now (fun _ => false) (fun id => id) .acknowledged

/-- The lease of worker 0 lapses and worker 1 takes the job over. -/
def takeover : List QueueEvent :=
  [claimNow 0 0, .advance 11, claimNow 1 11]

/-- Worker 0 fails late: worker 2 claims the job next to worker 1, or a completed job is
pending again. -/
theorem takeover_not_safe :
    (∃ w, run queueStep oneJob (takeover ++ [.process 0 (some "timeout"),
      .fail 0 11 .acknowledged, claimNow 2 11]) = some w ∧ ¬ Exclusive w.log) ∧
    ∃ u w, run queueStep oneJob (takeover ++ [.process 1 none,
        .complete 1 11 .acknowledged ""]) = some u ∧
      run queueStep u [.process 0 (some "timeout"), .fail 0 11 .acknowledged] = some w ∧
      (u.job 1).map JobRow.status = some .completed ∧
      (w.job 1).map JobRow.status = some .pending := by
  constructor
  · obtain ⟨w,hw⟩ := Option.isSome_iff_exists.mp (show (run queueStep oneJob (takeover ++
      [.process 0 (some "timeout"), .fail 0 11 .acknowledged, claimNow 2 11])).isSome = true
      by decide)
    have hobs : (run queueStep oneJob (takeover ++ [.process 0 (some "timeout"),
      .fail 0 11 .acknowledged, claimNow 2 11])).map (fun w => decide (Exclusive w.log)) =
      some false := by decide
    rw [hw] at hobs
    exact ⟨w,hw,by simpa using hobs⟩
  · obtain ⟨u,hu⟩ := Option.isSome_iff_exists.mp (show (run queueStep oneJob (takeover ++
      [.process 1 none, .complete 1 11 .acknowledged ""])).isSome = true by decide)
    have hobs : (run queueStep oneJob (takeover ++ [.process 1 none,
      .complete 1 11 .acknowledged ""])).bind (fun u => (run queueStep u
        [.process 0 (some "timeout"), .fail 0 11 .acknowledged]).map fun w =>
          ((u.job 1).map JobRow.status,(w.job 1).map JobRow.status)) =
      some (some .completed,some .pending) := by decide
    rw [hu,Option.bind_some] at hobs
    obtain ⟨w,hw,hstatus⟩ := Option.map_eq_some_iff.mp hobs
    obtain ⟨hcompleted,hpending⟩ := Prod.mk.inj hstatus
    exact ⟨u,w,hu,hw,hcompleted,hpending⟩

/-- After the same takeover, late completions do no harm. -/
theorem takeover_safe : ∃ w, run queueStep oneJob (takeover ++ [.process 1 none,
    .complete 1 11 .acknowledged "", .process 0 none, .complete 0 11 .acknowledged ""]) =
      some w ∧ Exclusive w.log := by
  obtain ⟨w,hw⟩ := Option.isSome_iff_exists.mp (show (run queueStep oneJob (takeover ++
    [.process 1 none, .complete 1 11 .acknowledged "", .process 0 none,
      .complete 0 11 .acknowledged ""])).isSome = true by decide)
  exact ⟨w,hw,(jobs_safe_of_failures_fit (.start oneJob_fresh) hw (by decide)).1⟩

end SystemsLab.Queue
