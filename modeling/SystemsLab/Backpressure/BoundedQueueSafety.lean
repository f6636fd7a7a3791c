import SystemsLab.Backpressure.BoundedQueue

/-!
# The bounded queue keeps its count

The counter and the jobs are written by different statements, so they only agree when no
transaction is open. The row locks see to it that at most one open transaction has a new count
in hand, and that no two have the same job.
-/

namespace SystemsLab.Backpressure

variable {t t' : QueueTables} {l l' : Ledger} {w w' : BoundedWorld} {n m : Nat}

/-- The jobs that one `enqueue` has added. -/
def Ledger.addedBy (l : Ledger) (n : Nat) : List String :=
  (l.added.filter (·.process == n)).map JobRecord.publicId

def QueueTables.hasStatus (t : QueueTables) (jobId : Nat) (status : JobStatus) : Prop :=
  ∃ job ∈ t.jobs, job.id = jobId ∧ job.status = status

/-- The count has been raised, and there was room. -/
def QueueState.FollowsOn (s : QueueState) (t : QueueTables) : Prop :=
  s = { t.state with pendingCount := t.state.pendingCount + 1 } ∧
    t.state.pendingCount < t.state.capacity

def EnqueuePhase.Fits (t : QueueTables) (l : Ledger) (n : Nat) : EnqueuePhase → Prop
  | .insertingJob s => l.addedBy n = [] ∧ s.FollowsOn t
  | .committing job s => l.addedBy n = [] ∧ s.FollowsOn t ∧ job.status = .pending ∧
      job.id < t.jobSeq ∧ job.id ∉ t.jobs.map JobRow.id ∧
      job.publicId ∉ t.jobs.map JobRow.publicId
  | .returned r => l.addedBy n = r.publicId.toList ∧ r.accepted = r.publicId.isSome
  | _ => l.addedBy n = []

def WorkerPhase.Fits (t : QueueTables) (l : Ledger) (n : Nat) : WorkerPhase → Prop
  | .markingJob jobId => t.hasStatus jobId .pending
  | .committingClaim jobId => t.hasStatus jobId .pending
  | .working jobId => t.hasStatus jobId .processing ∧ ⟨n,jobId⟩ ∈ l.claims
  | .completingJob jobId => t.hasStatus jobId .processing ∧ ⟨n,jobId⟩ ∈ l.claims
  | .freeingSlot jobId => t.hasStatus jobId .processing ∧ ⟨n,jobId⟩ ∈ l.claims
  | .committingCompletion jobId pendingCount =>
    (t.hasStatus jobId .processing ∧ ⟨n,jobId⟩ ∈ l.claims) ∧
      pendingCount = t.state.pendingCount - 1
  | _ => True

def Process.Fits (t : QueueTables) (l : Ledger) (n : Nat) : Process → Prop
  | .enqueue phase => phase.Fits t l n
  | .worker runner => runner.phase.Fits t l n

theorem Process.Fits.keep {p : Process} (h : p.Fits t l n) (hadded : l'.addedBy n = l.addedBy n)
    (hstate : p.heldState = some () → t'.state = t.state ∧
      t'.jobs.map JobRow.id = t.jobs.map JobRow.id ∧
      t'.jobs.map JobRow.publicId = t.jobs.map JobRow.publicId)
    (hseq : t.jobSeq ≤ t'.jobSeq)
    (hpending : ∀ j, p.heldJob = some j → t.hasStatus j .pending → t'.hasStatus j .pending)
    (hprocessing : ∀ j, ⟨n,j⟩ ∈ l.claims → t.hasStatus j .processing →
      t'.hasStatus j .processing)
    (hclaims : ∀ c ∈ l.claims, c ∈ l'.claims) : p.Fits t' l' n := by
  have hworking : ∀ j, t.hasStatus j .processing ∧ ⟨n,j⟩ ∈ l.claims →
      t'.hasStatus j .processing ∧ ⟨n,j⟩ ∈ l'.claims :=
    fun j hj => ⟨hprocessing j hj.2 hj.1,hclaims _ hj.2⟩
  cases p with
  | enqueue phase =>
    cases phase with
    | insertingJob s =>
      obtain ⟨hs,_⟩ := hstate rfl
      refine ⟨hadded.trans h.1,?_⟩
      rw [QueueState.FollowsOn,hs]
      exact h.2
    | committing job s =>
      obtain ⟨hs,hids,hpublic⟩ := hstate rfl
      obtain ⟨hnone,hfollows,hstatus,hlt,hid,hpub⟩ := h
      refine ⟨hadded.trans hnone,?_,hstatus,Nat.lt_of_lt_of_le hlt hseq,?_,?_⟩
      · rw [QueueState.FollowsOn,hs]
        exact hfollows
      · rw [hids]
        exact hid
      · rw [hpublic]
        exact hpub
    | returned r => exact ⟨hadded.trans h.1,h.2⟩
    | updatingState => exact hadded.trans h
    | selectingState => exact hadded.trans h
    | rollingBack => exact hadded.trans h
    | thrown => exact hadded.trans h
  | worker runner =>
    cases runner with
    | mk workerId processedCount phase =>
      cases phase with
      | markingJob j => exact hpending j rfl h
      | committingClaim j => exact hpending j rfl h
      | working j => exact hworking j h
      | completingJob j => exact hworking j h
      | freeingSlot j => exact hworking j h
      | committingCompletion j pendingCount =>
        obtain ⟨hs,_⟩ := hstate rfl
        refine ⟨hworking j h.1,?_⟩
        rw [hs]
        exact h.2
      | _ => trivial

structure BoundedWorld.Locked (w : BoundedWorld) : Prop where
  state : w.stateLock.Held fun n => (w.process n).bind Process.heldState
  job : w.jobLock.Held fun n => (w.process n).bind Process.heldJob

/-- The locks held by `p`. -/
def Process.free (p : Process) : Prop :=
  p.heldState = none ∧ p.heldJob = none

private theorem BoundedWorld.Locked.put (h : w.Locked) {old p : Process}
    (hold : w.process n = some old)
    (hstate : p.heldState = old.heldState) (hjob : p.heldJob = old.heldJob) : (w.put n p).Locked :=
  ⟨h.state.keepCall (hstate.trans (holdings_eq hold).symm),
    h.job.keepCall (hjob.trans (holdings_eq hold).symm)⟩

private theorem BoundedWorld.Locked.finish (h : w.Locked) {old p : Process}
    (hold : w.process n = some old)
    (hp : p.free) : (w.finish n old p).Locked :=
  ⟨h.state.releaseCall hold hp.1,h.job.releaseCall hold hp.2⟩

def Ledger.statusOf (l : Ledger) (jobId : Nat) : JobStatus :=
  if jobId ∈ l.completions.map ClaimRecord.jobId then .completed
  else if jobId ∈ l.claims.map ClaimRecord.jobId then .processing
  else .pending

/-- What is committed, and how each process relies on it. -/
structure Books (t : QueueTables) (l : Ledger) (process : Nat → Option Process) : Prop where
  ids : (t.jobs.map JobRow.id).Nodup
  seq : ∀ job ∈ t.jobs, job.id < t.jobSeq
  publicIds : t.jobs.map JobRow.publicId = l.added.map JobRecord.publicId
  unique : (t.jobs.map JobRow.publicId).Nodup
  count : t.state.pendingCount = t.jobs.countP JobRow.active
  bound : t.state.pendingCount ≤ t.state.capacity
  statuses : ∀ job ∈ t.jobs, job.status = l.statusOf job.id
  known : ∀ c ∈ l.claims, c.jobId ∈ t.jobs.map JobRow.id
  claimed : (l.claims.map ClaimRecord.jobId).Nodup
  completed : ∀ c ∈ l.completions, c ∈ l.claims
  idle : ∀ n, process n = none → l.addedBy n = []
  fits : ∀ n p, process n = some p → p.Fits t l n

variable {process : Nat → Option Process}

private theorem fits_update {p : Process} (hp : p.Fits t l n)
    (hothers : ∀ m q, m ≠ n → process m = some q → q.Fits t l m) :
    ∀ m q, Function.update process n (some p) m = some q → q.Fits t l m := by
  intro m q hq
  by_cases hm : m = n
  · subst hm
    rw [Function.update_self] at hq
    cases hq
    exact hp
  · rw [Function.update_of_ne hm] at hq
    exact hothers m q hm hq

private theorem idle_update {p : Process} (h : ∀ m, process m = none → l.addedBy m = []) :
    ∀ m, Function.update process n (some p) m = none → l.addedBy m = [] := by
  intro m hm
  apply h
  by_cases heq : m = n
  · subst heq
    rw [Function.update_self] at hm
    cases hm
  · rwa [Function.update_of_ne heq] at hm

private theorem Books.put (h : Books t l process) {p : Process} (hp : p.Fits t l n) :
    Books t l (Function.update process n (some p)) :=
  { h with
    idle := idle_update h.idle
    fits := fits_update hp fun m q _ hq => h.fits m q hq }

private theorem Books.advance (h : Books t l process) {p : Process}
    (hp : p.Fits { t with jobSeq := t.jobSeq + 1 } l n) :
    Books { t with jobSeq := t.jobSeq + 1 } l (Function.update process n (some p)) := by
  refine { h with seq := ?_, idle := idle_update h.idle, fits := fits_update hp ?_ }
  · intro job hjob
    exact Nat.lt_succ_of_lt (h.seq job hjob)
  · intro m q _ hq
    apply (h.fits m q hq).keep rfl
    · exact fun _ => ⟨rfl,rfl,rfl⟩
    · exact Nat.le_succ _
    · exact fun _ _ hs => hs
    · exact fun _ _ hs => hs
    · exact fun _ hc => hc

private theorem addedBy_append (l : Ledger) (n m : Nat) (publicId : String) :
    Ledger.addedBy { l with added := l.added ++ [⟨n,publicId⟩] } m =
      l.addedBy m ++ if n = m then [publicId] else [] := by
  unfold Ledger.addedBy
  rw [List.filter_append,List.map_append]
  by_cases hn : n = m <;> simp [hn]

private theorem Books.enqueued (h : Books t l process) {job : JobRow} {s : QueueState}
    (hp : (EnqueuePhase.committing job s).Fits t l n) (hprocess : ∀ m q, m ≠ n →
      process m = some q → q.heldState ≠ some ())
    (hn : process n = some (.enqueue (.committing job s))) (pendingCount capacity : Nat) :
    Books { t with state := s, jobs := t.jobs ++ [job] }
      { l with added := l.added ++ [⟨n,job.publicId⟩] }
      (Function.update process n (some (.enqueue
        (.returned ⟨true,some job.publicId,pendingCount,capacity⟩)))) := by
  obtain ⟨hnone,⟨hs,hroom⟩,hstatus,hseq,hid,hpublic⟩ := hp
  have hclaims : job.id ∉ l.claims.map ClaimRecord.jobId := by
    intro hmem
    obtain ⟨c,hc,hcj⟩ := List.mem_map.mp hmem
    exact hid (hcj ▸ h.known c hc)
  have hcompletions : job.id ∉ l.completions.map ClaimRecord.jobId := by
    intro hmem
    obtain ⟨c,hc,hcj⟩ := List.mem_map.mp hmem
    exact hclaims (List.mem_map.mpr ⟨c,h.completed c hc,hcj⟩)
  constructor
  · rw [List.map_append]
    exact List.nodup_append.mpr ⟨h.ids,List.nodup_singleton _,by simpa using hid⟩
  · exact forall_append_next h.seq hseq
  · show (t.jobs ++ [job]).map _ = (l.added ++ [_]).map _
    rw [List.map_append,List.map_append,h.publicIds]
    rfl
  · rw [List.map_append]
    exact List.nodup_append.mpr ⟨h.unique,List.nodup_singleton _,by simpa using hpublic⟩
  · show s.pendingCount = (t.jobs ++ [job]).countP _
    rw [hs,List.countP_append,← h.count]
    simp [JobRow.active,hstatus]
  · show s.pendingCount ≤ s.capacity
    rw [hs]
    exact hroom
  · apply forall_append_next h.statuses
    rw [hstatus]
    exact ((if_neg hcompletions).trans (if_neg hclaims)).symm
  · intro c hc
    rw [List.map_append]
    exact List.mem_append_left _ (h.known c hc)
  · exact h.claimed
  · exact h.completed
  · apply idle_update
    intro m hm
    have hne : n ≠ m := by
      intro heq
      rw [← heq,hn] at hm
      cases hm
    rw [addedBy_append,if_neg hne,List.append_nil]
    exact h.idle m hm
  · apply fits_update
    · refine ⟨?_,rfl⟩
      rw [addedBy_append,if_pos rfl,hnone]
      rfl
    · intro m q hm hq
      have hkeeps : ∀ j status, t.hasStatus j status →
          QueueTables.hasStatus { t with state := s, jobs := t.jobs ++ [job] } j status := by
        rintro j status ⟨row,hrow,hrowid⟩
        exact ⟨row,List.mem_append_left _ hrow,hrowid⟩
      apply (h.fits m q hq).keep
      · rw [addedBy_append,if_neg (Ne.symm hm),List.append_nil]
      · exact fun hheld => absurd hheld (hprocess m q hm hq)
      · exact Nat.le_refl _
      · exact fun j _ => hkeeps j _
      · exact fun j _ => hkeeps j _
      · exact fun _ hc => hc

private theorem hasStatus_update {f : JobRow → JobRow} {j : Nat} (k : Nat) {status : JobStatus}
    (hk : k ≠ j) (h : t.hasStatus k status) :
    QueueTables.hasStatus { t with jobs := updateWhere (·.id == j) f t.jobs } k status := by
  obtain ⟨row,hrow,hid,hstatus⟩ := h
  refine ⟨row,mem_updateWhere.mpr ⟨row,hrow,?_⟩,hid,hstatus⟩
  rw [if_neg]
  rw [hid]
  simpa using hk

private theorem hasStatus_self {f : JobRow → JobRow} {j : Nat} {status status' : JobStatus}
    (hf : ∀ row, (f row).id = row.id ∧ (f row).status = status') (h : t.hasStatus j status) :
    QueueTables.hasStatus { t with jobs := updateWhere (·.id == j) f t.jobs } j status' := by
  obtain ⟨row,hrow,rfl,_⟩ := h
  refine ⟨f row,mem_updateWhere.mpr ⟨row,hrow,?_⟩,(hf row).1,(hf row).2⟩
  rw [if_pos (beq_self_eq_true _)]

private theorem Books.status_eq (h : Books t l process) {j : Nat} {status : JobStatus}
    (hj : t.hasStatus j status) : l.statusOf j = status := by
  obtain ⟨row,hrow,rfl,hstatus⟩ := hj
  rw [← h.statuses row hrow,hstatus]

private theorem statusOf_pending {j : Nat} (h : l.statusOf j = .pending) :
    j ∉ l.completions.map ClaimRecord.jobId ∧ j ∉ l.claims.map ClaimRecord.jobId := by
  unfold Ledger.statusOf at h
  split at h
  · cases h
  · split at h
    · cases h
    · exact ⟨by assumption,by assumption⟩

private theorem map_id_append (records : List ClaimRecord) (n k j : Nat) :
    k ∈ (records ++ [ClaimRecord.mk n j]).map ClaimRecord.jobId ↔
      k ∈ records.map ClaimRecord.jobId ∨ k = j := by
  rw [List.map_append,List.mem_append]
  simp

private theorem Books.updated (h : Books t l process) {f : JobRow → JobRow} {j : Nat}
    {status : JobStatus}
    (hf : ∀ row, (f row).id = row.id ∧ (f row).status = status ∧
      (f row).publicId = row.publicId) {l' : Ledger} (hown : l'.statusOf j = status)
    (hothers : ∀ k, k ≠ j → l'.statusOf k = l.statusOf k) :
    (updateWhere (·.id == j) f t.jobs).map JobRow.id = t.jobs.map JobRow.id ∧
      (updateWhere (·.id == j) f t.jobs).map JobRow.publicId = t.jobs.map JobRow.publicId ∧
      (∀ job ∈ updateWhere (·.id == j) f t.jobs, job.id < t.jobSeq) ∧
      ∀ job ∈ updateWhere (·.id == j) f t.jobs, job.status = l'.statusOf job.id := by
  refine ⟨map_updateWhere _ (fun row => (hf row).1) _,
    map_updateWhere _ (fun row => (hf row).2.2) _,?_,?_⟩
  · refine forall_mem_updateWhere h.seq ?_ fun _ _ hlt _ => hlt
    intro row _ hlt _
    rw [(hf row).1]
    exact hlt
  · refine forall_mem_updateWhere h.statuses ?_ ?_
    · intro row _ _ hhit
      have hid : row.id = j := by simpa using hhit
      rw [(hf row).1,(hf row).2.1,hid,hown]
    · intro row _ hstatus hmiss
      have hid : row.id ≠ j := by simpa using hmiss
      rw [hstatus,hothers row.id hid]

private theorem Books.active_updated (h : Books t l process) {f : JobRow → JobRow} {j : Nat}
    {status : JobStatus} (hj : t.hasStatus j status) (hactive : status ≠ .completed)
    {stays : Bool} (hf : ∀ row, (f row).active = stays) :
    (updateWhere (·.id == j) f t.jobs).countP JobRow.active + 1 =
      t.state.pendingCount + if stays then 1 else 0 := by
  obtain ⟨row,hrow,rfl,hstatus⟩ := hj
  have hcount := countP_updateWhere_key JobRow.active (f := f) h.ids hrow
  have hold : row.active = true := by
    unfold JobRow.active
    cases hs : row.status with
    | pending => rfl
    | processing => rfl
    | completed => exact absurd (hstatus.symm.trans hs) hactive
  rw [hold,hf,if_pos rfl] at hcount
  rw [h.count]
  exact hcount

theorem Books.claim (h : Books t l process) {j : Nat} (hj : t.hasStatus j .pending)
    (hprocess : ∀ m q, m ≠ n → process m = some q → q.heldJob ≠ some j) (worker : Worker) :
    Books { t with jobs := updateWhere (·.id == j) (JobRow.mark worker.workerId) t.jobs }
      { l with claims := l.claims ++ [ClaimRecord.mk n j] }
      (Function.update process n (some (.worker { worker with phase := .working j }))) := by
  obtain ⟨hcompletions,hclaims⟩ := statusOf_pending (h.status_eq hj)
  have hown :
      Ledger.statusOf { l with claims := l.claims ++ [ClaimRecord.mk n j] } j = .processing :=
    (if_neg hcompletions).trans (if_pos ((map_id_append _ n j j).mpr (.inr rfl)))
  have hothers : ∀ k, k ≠ j →
      Ledger.statusOf { l with claims := l.claims ++ [ClaimRecord.mk n j] } k = l.statusOf k := by
    intro k hk
    unfold Ledger.statusOf
    simp only [map_id_append,hk,or_false]
  obtain ⟨hids,hpublic,hseq,hstatuses⟩ := h.updated (f := JobRow.mark worker.workerId)
    (fun _ => ⟨rfl,rfl,rfl⟩) hown hothers
  have hmember : ∀ c ∈ l.claims, c ∈ l.claims ++ [ClaimRecord.mk n j] :=
    fun _ => List.mem_append_left _
  constructor
  · exact hids ▸ h.ids
  · exact hseq
  · exact hpublic.trans h.publicIds
  · exact hpublic ▸ h.unique
  · have hcount := h.active_updated hj (by decide) (f := JobRow.mark worker.workerId) fun _ => rfl
    exact (Nat.add_right_cancel hcount).symm
  · exact h.bound
  · exact hstatuses
  · intro c hc
    show c.jobId ∈ (updateWhere _ _ t.jobs).map JobRow.id
    rw [hids]
    rcases List.mem_append.mp hc with hold | hnew
    · exact h.known c hold
    · obtain ⟨row,hrow,hid,_⟩ := hj
      rw [List.mem_singleton.mp hnew,← hid]
      exact List.mem_map_of_mem hrow
  · show ((l.claims ++ [ClaimRecord.mk n j]).map _).Nodup
    rw [List.map_append]
    exact List.nodup_append.mpr ⟨h.claimed,List.nodup_singleton _,by simpa using hclaims⟩
  · exact fun c hc => hmember c (h.completed c hc)
  · exact idle_update h.idle
  · apply fits_update
    · exact ⟨hasStatus_self (fun _ => ⟨rfl,rfl⟩) hj,
        List.mem_append_right _ (List.mem_singleton_self _)⟩
    · intro m q hm hq
      apply (h.fits m q hq).keep
      · rfl
      · exact fun _ => ⟨rfl,hids,hpublic⟩
      · exact Nat.le_refl _
      · intro k hk hs
        apply hasStatus_update k _ hs
        intro heq
        exact hprocess m q hm hq (heq ▸ hk)
      · intro k hk hs
        apply hasStatus_update k _ hs
        intro heq
        exact hclaims (List.mem_map.mpr ⟨_,hk,heq⟩)
      · exact hmember

private theorem Books.complete (h : Books t l process) {j : Nat} (hj : t.hasStatus j .processing)
    (hclaim : ⟨n,j⟩ ∈ l.claims)
    (hprocess : ∀ m q, m ≠ n → process m = some q → q.heldState ≠ some ()) {p : Process}
    (hp : ∀ t' l', p.Fits t' l' n) :
    Books { t with
        state := { t.state with pendingCount := t.state.pendingCount - 1 }
        jobs := updateWhere (·.id == j) JobRow.complete t.jobs }
      { l with completions := l.completions ++ [ClaimRecord.mk n j] }
      (Function.update process n (some p)) := by
  have hown : Ledger.statusOf
      { l with completions := l.completions ++ [ClaimRecord.mk n j] } j = .completed :=
    if_pos ((map_id_append _ n j j).mpr (.inr rfl))
  have hothers : ∀ k, k ≠ j →
      Ledger.statusOf { l with completions := l.completions ++ [ClaimRecord.mk n j] } k =
        l.statusOf k := by
    intro k hk
    unfold Ledger.statusOf
    simp only [map_id_append,hk,or_false]
  obtain ⟨hids,hpublic,hseq,hstatuses⟩ := h.updated (f := JobRow.complete)
    (fun _ => ⟨rfl,rfl,rfl⟩) hown hothers
  have hpending : ∀ k, t.hasStatus k .pending → k ≠ j := by
    intro k hk heq
    have hstatus := h.status_eq hk
    rw [heq,h.status_eq hj] at hstatus
    cases hstatus
  have hclaimed : ∀ m k, m ≠ n → ⟨m,k⟩ ∈ l.claims → k ≠ j := by
    intro m k hm hk heq
    have hsame := eq_of_key_eq h.claimed hk hclaim heq
    exact hm (congrArg ClaimRecord.process hsame)
  constructor
  · exact hids ▸ h.ids
  · exact hseq
  · exact hpublic.trans h.publicIds
  · exact hpublic ▸ h.unique
  · have hcount := h.active_updated hj (by decide) (f := JobRow.complete) fun _ => rfl
    rw [if_neg Bool.false_ne_true] at hcount
    show t.state.pendingCount - 1 = (updateWhere _ _ t.jobs).countP JobRow.active
    omega
  · show t.state.pendingCount - 1 ≤ t.state.capacity
    have := h.bound
    omega
  · exact hstatuses
  · intro c hc
    show c.jobId ∈ (updateWhere _ _ t.jobs).map JobRow.id
    rw [hids]
    exact h.known c hc
  · exact h.claimed
  · intro c hc
    rcases List.mem_append.mp hc with hold | hnew
    · exact h.completed c hold
    · rw [List.mem_singleton.mp hnew]
      exact hclaim
  · exact idle_update h.idle
  · apply fits_update (hp _ _)
    intro m q hm hq
    apply (h.fits m q hq).keep
    · rfl
    · exact fun hheld => absurd hheld (hprocess m q hm hq)
    · exact Nat.le_refl _
    · exact fun k _ hs => hasStatus_update k (hpending k hs) hs
    · exact fun k hk hs => hasStatus_update k (hclaimed m k hm hk) hs
    · exact fun _ hc => hc

structure BoundedWorld.Sound (w : BoundedWorld) : Prop where
  locked : w.Locked
  books : Books w.tables w.ledger w.process

theorem BoundedWorld.Sound.start (h : w.Sound) {p : Process} (hn : w.process n = none)
    (hfree : p.free) (hp : p.Fits w.tables w.ledger n) : (w.put n p).Sound :=
  ⟨⟨h.locked.state.keepCall (hfree.1.trans (holdings_of_none hn).symm),
    h.locked.job.keepCall (hfree.2.trans (holdings_of_none hn).symm)⟩,h.books.put hp⟩

private theorem BoundedWorld.Sound.put (h : w.Sound) {old p : Process}
    (hold : w.process n = some old)
    (hp : p.Fits w.tables w.ledger n) (hstate : p.heldState = old.heldState)
    (hjob : p.heldJob = old.heldJob) : (w.put n p).Sound :=
  ⟨h.locked.put hold hstate hjob,h.books.put hp⟩

private theorem BoundedWorld.Sound.finish (h : w.Sound) {old p : Process}
    (hold : w.process n = some old) (hfree : p.free) (hp : p.Fits w.tables w.ledger n) :
    (w.finish n old p).Sound :=
  ⟨h.locked.finish hold hfree,h.books.put hp⟩

private theorem BoundedWorld.Sound.lockState (h : w.Sound) {old p : Process}
    (hold : w.process n = some old) (hfree : w.stateLock () = none) (hnone : old.heldState = none)
    (hstate : p.heldState = some ()) (hjob : p.heldJob = old.heldJob)
    (hp : p.Fits w.tables w.ledger n) :
    { w.put n p with stateLock := w.stateLock.acquire () n }.Sound :=
  ⟨⟨h.locked.state.acquireCall ((holdings_eq hold).trans hnone) hfree hstate,
    h.locked.job.keepCall (hjob.trans (holdings_eq hold).symm)⟩,h.books.put hp⟩

private theorem BoundedWorld.Sound.lockJob (h : w.Sound) {old p : Process} {j : Nat}
    (hold : w.process n = some old) (hfree : w.jobLock j = none) (hnone : old.heldJob = none)
    (hjob : p.heldJob = some j) (hstate : p.heldState = old.heldState)
    (hp : p.Fits w.tables w.ledger n) :
    { w.put n p with jobLock := w.jobLock.acquire j n }.Sound :=
  ⟨⟨h.locked.state.keepCall (hstate.trans (holdings_eq hold).symm),
    h.locked.job.acquireCall ((holdings_eq hold).trans hnone) hfree hjob⟩,h.books.put hp⟩

private theorem BoundedWorld.Sound.enqueueStep (h : w.Sound) {phase : EnqueuePhase}
    {choice : Choice}
    (hn : w.process n = some (.enqueue phase))
    (hquery : enqueueQuery w n phase choice = some w') : w'.Sound := by
  have hfits : phase.Fits w.tables w.ledger n := h.books.fits n _ hn
  cases phase with
  | updatingState =>
    dsimp only [enqueueQuery] at hquery
    split at hquery
    · rename_i hroom
      cases hlock : w.stateLock () with
      | some m => simp only [hlock] at hquery; cases hquery
      | none =>
        simp only [hlock] at hquery
        cases hquery
        exact h.lockState hn hlock rfl rfl rfl ⟨hfits,rfl,hroom⟩
    · cases hquery
      exact h.put hn hfits rfl rfl
  | insertingJob s =>
    dsimp only [enqueueQuery] at hquery
    split at hquery
    · cases hquery
      exact h.finish hn ⟨rfl,rfl⟩ hfits.1
    · rename_i hfresh
      cases hquery
      have hlocked := h.locked.put hn (p := .enqueue (.committing
        { id := w.tables.jobSeq, publicId := choice.uuid, submittedAt := choice.now } s)) rfl rfl
      refine ⟨⟨hlocked.state,hlocked.job⟩,h.books.advance ?_⟩
      refine ⟨hfits.1,hfits.2,rfl,Nat.lt_succ_self _,?_,hfresh⟩
      intro hmem
      obtain ⟨job,hjob,hid⟩ := List.mem_map.mp hmem
      exact Nat.ne_of_lt (h.books.seq job hjob) hid
  | committing job s =>
    cases hquery
    refine ⟨⟨h.locked.state.releaseCall hn rfl,h.locked.job.releaseCall hn rfl⟩,?_⟩
    exact h.books.enqueued hfits (fun _ _ => h.locked.state.others hn rfl) hn _ _
  | selectingState =>
    cases hquery
    exact h.put hn hfits rfl rfl
  | rollingBack s =>
    cases hquery
    exact h.finish hn ⟨rfl,rfl⟩ ⟨hfits,rfl⟩
  | returned r => cases hquery
  | thrown => cases hquery

private theorem BoundedWorld.Sound.workerStep (h : w.Sound) {runner : Worker} {choice : Choice}
    (hn : w.process n = some (.worker runner))
    (hquery : workerQuery w n runner choice = some w') : w'.Sound := by
  have hfits : runner.phase.Fits w.tables w.ledger n := h.books.fits n _ hn
  obtain ⟨workerId,processedCount,phase⟩ := runner
  cases phase with
  | selectingJob =>
    dsimp only [workerQuery] at hquery
    split at hquery
    · cases hquery
      exact h.put hn trivial rfl rfl
    · rename_i job hselect
      cases hquery
      obtain ⟨hjob,hpending,hunlocked⟩ := selectSkipLocked_some hselect
      have hfree : w.jobLock job.id = none :=
        Option.not_isSome_iff_eq_none.mp (by rw [hunlocked]; exact Bool.false_ne_true)
      exact h.lockJob hn hfree rfl rfl rfl ⟨job,hjob,rfl,by simpa using hpending⟩
  | committingEmpty =>
    cases hquery
    have hnext : ∀ phase : WorkerPhase, phase = .returned ∨ phase = .selectingJob →
        (w.put n (.worker ⟨workerId,processedCount,phase⟩)).Sound := by
      intro phase hphase
      rcases hphase with rfl | rfl
      · exact h.put hn trivial rfl rfl
      · exact h.put hn trivial rfl rfl
    apply hnext
    cases choice.shouldStop
    · exact .inr rfl
    · exact .inl rfl
  | markingJob j =>
    cases hquery
    exact h.put hn hfits rfl rfl
  | committingClaim j =>
    cases hquery
    refine ⟨⟨h.locked.state.releaseCall hn rfl,h.locked.job.releaseCall hn rfl⟩,?_⟩
    exact h.books.claim hfits (fun _ _ => h.locked.job.others hn rfl)
      ⟨workerId,processedCount,_⟩
  | working j =>
    cases hquery
    exact h.put hn hfits rfl rfl
  | completingJob j =>
    dsimp only [workerQuery] at hquery
    cases hlock : w.jobLock j with
    | some m => simp only [hlock] at hquery; cases hquery
    | none =>
      simp only [hlock] at hquery
      cases hquery
      exact h.lockJob hn hlock rfl rfl rfl hfits
  | freeingSlot j =>
    dsimp only [workerQuery] at hquery
    cases hlock : w.stateLock () with
    | some m => simp only [hlock] at hquery; cases hquery
    | none =>
      simp only [hlock] at hquery
      cases hquery
      exact h.lockState hn hlock rfl rfl rfl ⟨hfits,rfl⟩
  | committingCompletion j pendingCount =>
    cases hquery
    obtain ⟨⟨hprocessing,hclaim⟩,rfl⟩ := hfits
    refine ⟨⟨h.locked.state.releaseCall hn rfl,h.locked.job.releaseCall hn rfl⟩,?_⟩
    exact h.books.complete hprocessing hclaim
      (fun _ _ => h.locked.state.others hn rfl) fun _ _ => trivial
  | returned => cases hquery
  | thrown => cases hquery
  | crashed => cases hquery

private theorem Process.Fits.aborted {p q : Process} (h : p.Fits t l n) (hq : p.aborted = some q) :
    q.free ∧ q.Fits t l n := by
  cases p with
  | enqueue phase =>
    cases phase with
    | updatingState => cases hq; exact ⟨⟨rfl,rfl⟩,h⟩
    | insertingJob s => cases hq; exact ⟨⟨rfl,rfl⟩,h.1⟩
    | committing job s => cases hq; exact ⟨⟨rfl,rfl⟩,h.1⟩
    | selectingState => cases hq; exact ⟨⟨rfl,rfl⟩,h⟩
    | rollingBack s => cases hq; exact ⟨⟨rfl,rfl⟩,h⟩
    | returned r => cases hq
    | thrown => cases hq
  | worker runner =>
    obtain ⟨workerId,processedCount,phase⟩ := runner
    cases phase <;> cases hq <;> exact ⟨⟨rfl,rfl⟩,trivial⟩

theorem BoundedWorld.Sound.step (h : w.Sound) {e : BoundedEvent}
    (hstep : boundedStep w e = some w') : w'.Sound := by
  cases e with
  | enqueue n =>
    dsimp only [boundedStep] at hstep
    split at hstep
    · rename_i hn
      cases hstep
      exact h.start hn ⟨rfl,rfl⟩ (h.books.idle n hn)
    · cases hstep
  | work n workerId =>
    dsimp only [boundedStep] at hstep
    split at hstep
    · rename_i hn
      cases hstep
      exact h.start hn ⟨rfl,rfl⟩ trivial
    · cases hstep
  | query n choice =>
    dsimp only [boundedStep] at hstep
    split at hstep
    · rename_i phase hn
      exact h.enqueueStep hn hstep
    · rename_i runner hn
      exact h.workerStep hn hstep
    · cases hstep
  | abort n =>
    dsimp only [boundedStep] at hstep
    split at hstep
    · rename_i p hn
      split at hstep
      · rename_i q hq
        cases hstep
        obtain ⟨hfree,hfits⟩ := (h.books.fits n p hn).aborted hq
        exact h.finish hn hfree hfits
      · cases hstep
    · cases hstep
  | crash n =>
    dsimp only [boundedStep] at hstep
    split at hstep
    · rename_i runner hn
      cases hstep
      exact h.finish hn ⟨rfl,rfl⟩ trivial
    · cases hstep

theorem BoundedWorld.Reset.sound {capacity : Nat} (h : w.Reset capacity) : w.Sound := by
  obtain ⟨⟨t,ht⟩,hstate,hjob,hprocess,hledger⟩ := h
  refine ⟨⟨?_,?_⟩,?_⟩
  · rw [hstate,hprocess]
    exact LockTable.held_none
  · rw [hjob,hprocess]
    exact LockTable.held_none
  · rw [ht,hprocess,hledger]
    constructor
    case ids => exact List.nodup_nil
    case seq => exact fun _ hjob => absurd hjob List.not_mem_nil
    case publicIds => rfl
    case unique => exact List.nodup_nil
    case count => rfl
    case bound => exact Nat.zero_le _
    case statuses => exact fun _ hjob => absurd hjob List.not_mem_nil
    case known => exact fun _ hc => absurd hc List.not_mem_nil
    case claimed => exact List.nodup_nil
    case completed => exact fun _ hc => absurd hc List.not_mem_nil
    case idle => exact fun _ _ => rfl
    case fits => exact fun _ _ hp => absurd hp (Option.some_ne_none _).symm

private theorem BoundedWorld.Sound.capacity_eq (h : w.Sound) {e : BoundedEvent}
    (hstep : boundedStep w e = some w') : w'.tables.state.capacity = w.tables.state.capacity := by
  cases e with
  | query n choice =>
    dsimp only [boundedStep] at hstep
    split at hstep
    · rename_i phase hn
      have hfits : phase.Fits w.tables w.ledger n := h.books.fits n _ hn
      cases phase with
      | committing job s =>
        cases hstep
        obtain ⟨_,⟨hs,_⟩,_⟩ := hfits
        show s.capacity = w.tables.state.capacity
        rw [hs]
      | _ =>
        dsimp only [enqueueQuery] at hstep
        repeat' split at hstep
        all_goals cases hstep; try rfl
    · rename_i runner hn
      obtain ⟨workerId,processedCount,phase⟩ := runner
      cases phase with
      | _ =>
        dsimp only [workerQuery] at hstep
        repeat' split at hstep
        all_goals cases hstep; try rfl
    · cases hstep
  | _ =>
    dsimp only [boundedStep] at hstep
    repeat' split at hstep
    all_goals cases hstep; try rfl

/-- What the queue promises in a committed state. -/
structure BoundedWorld.Conserved (capacity : Nat) (w : BoundedWorld) : Prop where
  count : w.tables.state.pendingCount = w.tables.jobs.countP JobRow.active
  bound : w.tables.state.pendingCount ≤ capacity
  claimedOnce : (w.ledger.claims.map ClaimRecord.jobId).Nodup
  rows : w.tables.jobs.map JobRow.publicId = w.ledger.added.map JobRecord.publicId
  returned : ∀ n r, w.process n = some (.enqueue (.returned r)) →
    (r.accepted = true ↔ (w.ledger.addedBy n).length = 1) ∧
      (r.accepted = false ↔ w.ledger.addedBy n = [])
  thrown : ∀ n, w.process n = some (.enqueue .thrown) → w.ledger.addedBy n = []
  accepted : ∀ n r, w.process n = some (.enqueue (.returned r)) → r.accepted = true →
    ∃ job ∈ w.tables.jobs, w.ledger.addedBy n = [job.publicId] ∧
      r.publicId = some job.publicId ∧ job.status = w.ledger.statusOf job.id ∧
      ∀ other ∈ w.tables.jobs, other.publicId = job.publicId → other = job

private theorem mem_addedBy {publicId : String} (h : publicId ∈ l.addedBy n) :
    publicId ∈ l.added.map JobRecord.publicId := by
  obtain ⟨record,hrecord,rfl⟩ := List.mem_map.mp h
  exact List.mem_map_of_mem (List.mem_of_mem_filter hrecord)

private theorem BoundedWorld.Sound.conserved (h : w.Sound) :
    w.Conserved w.tables.state.capacity where
  count := h.books.count
  bound := h.books.bound
  claimedOnce := h.books.claimed
  rows := h.books.publicIds
  returned := by
    intro n r hn
    obtain ⟨hadded,haccepted⟩ := h.books.fits n _ hn
    rw [hadded,haccepted]
    cases r.publicId <;> simp
  thrown := fun n hn => h.books.fits n _ hn
  accepted := by
    intro n r hn htrue
    obtain ⟨hadded,haccepted⟩ := h.books.fits n _ hn
    rw [haccepted] at htrue
    obtain ⟨publicId,hpublicId⟩ := Option.isSome_iff_exists.mp htrue
    rw [hpublicId] at hadded
    have hmem : publicId ∈ w.ledger.addedBy n := by
      rw [hadded]
      exact List.mem_singleton_self _
    have hrow := mem_addedBy hmem
    rw [← h.books.publicIds] at hrow
    obtain ⟨job,hjob,rfl⟩ := List.mem_map.mp hrow
    refine ⟨job,hjob,hadded,hpublicId,h.books.statuses job hjob,?_⟩
    intro other hother heq
    exact eq_of_key_eq h.books.unique hother hjob heq

/-- However enqueues and workers interleave, abort and crash, the count is the number of open
jobs and within the capacity, no job is claimed twice, and what `enqueue` returns is what it has
done. -/
theorem boundedQueue_conserved {capacity : Nat}
    (h : Reachable boundedStep (BoundedWorld.Reset capacity) w) : w.Conserved capacity := by
  have hinvariant : w.Sound ∧ w.tables.state.capacity = capacity := by
    apply h.invariant
    · intro s hs
      refine ⟨hs.sound,?_⟩
      obtain ⟨⟨t,ht⟩,_⟩ := hs
      rw [ht]
      rfl
    · intro s e t hs _ hstep
      exact ⟨hs.1.step hstep,(hs.1.capacity_eq hstep).trans hs.2⟩
  rw [← hinvariant.2]
  exact hinvariant.1.conserved

def oneSlot : BoundedWorld :=
  { tables := resetQueueState ⟨⟨0,0⟩,[],1⟩ 1 }

/-- Two calls for one slot, a worker whose completion is aborted, and one that crashes. -/
def lostWorker : List BoundedEvent :=
  [.enqueue 0,.enqueue 1,.query 0 {},.query 0 { uuid := "job" },.query 0 {},.query 1 {},
    .query 1 {},.query 1 {},.work 2 "worker-a",.query 2 {},.query 2 {},.query 2 {},.query 2 {},
    .query 2 {},.query 2 {},.abort 2,.work 3 "worker-b",.query 3 {},.query 3 {},.crash 3]

theorem lostWorker_conserved : ∃ w, run boundedStep oneSlot lostWorker = some w ∧ w.Conserved 1 := by
  have hrun : (run boundedStep oneSlot lostWorker).isSome = true := by decide +kernel
  obtain ⟨w,hw⟩ := Option.isSome_iff_exists.mp hrun
  have hstart : Reachable boundedStep (BoundedWorld.Reset 1) oneSlot :=
    .start ⟨⟨_,rfl⟩,rfl,rfl,rfl,rfl⟩
  exact ⟨w,hw,boundedQueue_conserved (hstart.run hw)⟩

end SystemsLab.Backpressure
