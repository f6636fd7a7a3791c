import SystemsLab.Queue.JobSafety

/-!
# The audit trail of the job queue

`job_attempts` has a row for each claim. A claim opens a row and expires the one it takes over
from, `completeJob` and `failJob` write the row of their own claim, whatever its status is by
then. The trail is right as long as they find the row open.
-/

namespace SystemsLab.Queue

variable {π : Type*} {rows : List JobAttemptRow} {w w' : QueueWorld π} {jobId attemptId : Nat}

def JobAttemptRow.isOpenFor (jobId : Nat) (row : JobAttemptRow) : Bool :=
  row.jobId == jobId && row.status == .claimed

def openAttempts (rows : List JobAttemptRow) (jobId : Nat) : Nat :=
  rows.countP (·.isOpenFor jobId)

/-- Exactly the jobs that are being processed have an open attempt, and only one. -/
def JobTables.Audited (tables : JobTables π) : Prop :=
  ∀ job ∈ tables.jobs,
    openAttempts tables.jobAttempts job.id = if job.status = .processing then 1 else 0

/-- A row that is not open any more keeps its status. -/
def ClosedForGood (rows rows' : List JobAttemptRow) : Prop :=
  ∀ row ∈ rows, row.status ≠ .claimed → (∃ row' ∈ rows', row'.id = row.id) ∧
    ∀ row' ∈ rows', row'.id = row.id → row'.status = row.status

/-- The event leaves the trail right and closed rows alone. -/
def KeepsTrail (w : QueueWorld π) (e : QueueEvent) : Prop :=
  ∀ w', queueStep w e = some w' →
    w'.tables.Audited ∧ ClosedForGood w.tables.jobAttempts w'.tables.jobAttempts

instance (tables : JobTables π) : Decidable tables.Audited :=
  inferInstanceAs (Decidable (∀ job ∈ tables.jobs,
    openAttempts tables.jobAttempts job.id = if job.status = .processing then 1 else 0))

instance (rows rows' : List JobAttemptRow) : Decidable (ClosedForGood rows rows') :=
  inferInstanceAs (Decidable (∀ row ∈ rows, row.status ≠ .claimed →
    (∃ row' ∈ rows', row'.id = row.id) ∧
      ∀ row' ∈ rows', row'.id = row.id → row'.status = row.status))

instance (w : QueueWorld π) (e : QueueEvent) : Decidable (KeepsTrail w e) :=
  match h : queueStep w e with
  | none => isTrue fun _ hw => nomatch h.symm.trans hw
  | some w' => decidable_of_iff
      (w'.tables.Audited ∧ ClosedForGood w.tables.jobAttempts w'.tables.jobAttempts)
      ⟨fun hkeeps _ hw => Option.some.inj (h.symm.trans hw) ▸ hkeeps,fun hkeeps => hkeeps w' h⟩

/-- The attempt of the worker's claim is still open. -/
def WorkerPhase.attemptOpen (rows : List JobAttemptRow) (phase : WorkerPhase π) : Bool :=
  phase.claim.all fun claim =>
    rows.any fun row => row.id == claim.attemptId && row.status == .claimed

/-- A committed `completeJob` or `failJob` finds its attempt open. -/
def ClosesOpenAttempt (w : QueueWorld π) : QueueEvent → Prop
  | .complete k _ commit _ =>
    commit.applied = true → (w.worker k).phase.attemptOpen w.tables.jobAttempts = true
  | .fail k _ commit =>
    commit.applied = true → (w.worker k).phase.attemptOpen w.tables.jobAttempts = true
  | _ => True

instance : ∀ (w : QueueWorld π) e, Decidable (ClosesOpenAttempt w e)
  | w, .complete k _ commit _ => inferInstanceAs (Decidable (commit.applied = true →
      (w.worker k).phase.attemptOpen w.tables.jobAttempts = true))
  | w, .fail k _ commit => inferInstanceAs (Decidable (commit.applied = true →
      (w.worker k).phase.attemptOpen w.tables.jobAttempts = true))
  | _, .claim _ _ _ _ _ => isTrue trivial
  | _, .process _ _ => isTrue trivial
  | _, .crash _ => isTrue trivial
  | _, .advance _ => isTrue trivial

private theorem openAttempts_append (rows : List JobAttemptRow) (row : JobAttemptRow)
    (jobId : Nat) :
    openAttempts (rows ++ [row]) jobId =
      openAttempts rows jobId + if row.isOpenFor jobId then 1 else 0 := by
  unfold openAttempts
  rw [List.countP_append,List.countP_singleton]

private theorem openAttempts_expire (rows : List JobAttemptRow) (now : Int) (j : Nat) :
    openAttempts (expireAttempts jobId now rows) j =
      if j = jobId then 0 else openAttempts rows j := by
  unfold openAttempts expireAttempts updateWhere
  rw [List.countP_map]
  by_cases hj : j = jobId
  · rw [if_pos hj,List.countP_eq_zero]
    intro row _
    simp only [Function.comp_apply,JobAttemptRow.isOpenFor]
    split
    · simp
    · rename_i hmiss
      rw [hj]
      exact hmiss
  · rw [if_neg hj]
    apply List.countP_congr
    intro row _
    simp only [Function.comp_apply,JobAttemptRow.isOpenFor]
    split
    · rename_i hhit
      have hrow : row.jobId = jobId := by
        rw [Bool.and_eq_true,beq_iff_eq] at hhit
        exact hhit.1
      have hne : (row.jobId == j) = false := by
        rw [hrow,beq_eq_false_iff_ne]
        exact Ne.symm hj
      simp [hne]
    · rfl

private theorem isOpenFor_eq_decide {row : JobAttemptRow} (h : row.isOpenFor jobId = true)
    (j : Nat) :
    row.isOpenFor j = decide (j = jobId) := by
  unfold JobAttemptRow.isOpenFor at h ⊢
  rw [Bool.and_eq_true,beq_iff_eq] at h
  rw [h.1,h.2,Bool.and_true,Bool.beq_eq_decide_eq,decide_eq_decide]
  exact eq_comm

private theorem openAttempts_release (hn : (rows.map JobAttemptRow.id).Nodup) {row : JobAttemptRow}
    (hrow : row ∈ rows) (hopen : row.isOpenFor jobId = true) {status : JobAttemptStatus}
    (hstatus : status ≠ .claimed) (error : Option String) (now : Int) (j : Nat) :
    openAttempts (releaseAttempt row.id status error now rows) j +
      (if j = jobId then 1 else 0) = openAttempts rows j := by
  have hcount := countP_updateWhere_key (·.isOpenFor j)
    (f := fun r => { r with status, releasedAt := some now, error := error <|> r.error }) hn hrow
  have hclosed : JobAttemptRow.isOpenFor j
      { row with status, releasedAt := some now, error := error <|> row.error } = false := by
    unfold JobAttemptRow.isOpenFor
    rw [beq_eq_false_iff_ne.mpr hstatus,Bool.and_false]
  rw [hclosed,isOpenFor_eq_decide hopen] at hcount
  simp only [decide_eq_true_eq,Bool.false_eq_true,if_false,Nat.add_zero] at hcount
  exact hcount

/-- The statuses that the attempt of a claim can have while the worker is in a phase. -/
def WorkerPhase.allows : WorkerPhase π → JobAttemptStatus → Bool
  | .processing _, status => status == .claimed || status == .expired
  | .completing _, status => status == .claimed || status == .expired
  | .failing _ _, status => status != .failed
  | _, _ => true

def WorkerPhase.Follows (rows : List JobAttemptRow) (phase : WorkerPhase π) : Prop :=
  ∀ claim, phase.claim = some claim → ∃ row ∈ rows, row.id = claim.attemptId ∧
    row.jobId = claim.job.id ∧ phase.allows row.status = true

/-- The trail, and what every worker can rely on. -/
structure Trail (tables : JobTables π) (worker : Nat → Worker π) : Prop where
  ids : (tables.jobAttempts.map JobAttemptRow.id).Nodup
  seq : ∀ row ∈ tables.jobAttempts, row.id ≤ tables.attemptSeq
  foreign : ∀ row ∈ tables.jobAttempts, row.jobId ∈ tables.jobs.map JobRow.id
  audited : tables.Audited
  follows : ∀ k, (worker k).phase.Follows tables.jobAttempts
  distinct : ∀ j k c d, j ≠ k → (worker j).phase.claim = some c →
    (worker k).phase.claim = some d → c.attemptId ≠ d.attemptId

variable {tables : JobTables π} {worker : Nat → Worker π} {k : Nat} {next : Worker π}

private theorem distinct_update (h : ∀ j k c d, j ≠ k → (worker j).phase.claim = some c →
      (worker k).phase.claim = some d → c.attemptId ≠ d.attemptId)
    (hnext : ∀ c, next.phase.claim = some c → ∀ j d, j ≠ k →
      (worker j).phase.claim = some d → c.attemptId ≠ d.attemptId) :
    ∀ i j c d, i ≠ j → (Function.update worker k next i).phase.claim = some c →
      (Function.update worker k next j).phase.claim = some d → c.attemptId ≠ d.attemptId := by
  intro i j c d hij hc hd
  by_cases hi : i = k
  · subst hi
    rw [Function.update_self] at hc
    rw [Function.update_of_ne (Ne.symm hij)] at hd
    exact hnext c hc j d (Ne.symm hij) hd
  · rw [Function.update_of_ne hi] at hc
    by_cases hj : j = k
    · subst hj
      rw [Function.update_self] at hd
      exact Ne.symm (hnext d hd i c hi hc)
    · rw [Function.update_of_ne hj] at hd
      exact h i j c d hij hc hd

private theorem follows_update {rows' : List JobAttemptRow} (hnext : next.phase.Follows rows')
    (hothers : ∀ j, j ≠ k → (worker j).phase.Follows rows') :
    ∀ j, (Function.update worker k next j).phase.Follows rows' := by
  intro j
  by_cases hj : j = k
  · subst hj
    rw [Function.update_self]
    exact hnext
  · rw [Function.update_of_ne hj]
    exact hothers j hj

private theorem Trail.moved (h : Trail tables worker)
    (hnext : ∀ c, next.phase.claim = some c → (worker k).phase.claim = some c ∧
      ∀ status, (worker k).phase.allows status = true → next.phase.allows status = true) :
    Trail tables (Function.update worker k next) := by
  refine { h with follows := ?_, distinct := ?_ }
  · apply follows_update _ fun j _ => h.follows j
    intro claim hclaim
    obtain ⟨hk,hallows⟩ := hnext claim hclaim
    obtain ⟨row,hrow,hid,hjob,hstatus⟩ := h.follows k claim hk
    exact ⟨row,hrow,hid,hjob,hallows _ hstatus⟩
  · apply distinct_update h.distinct
    intro c hc j d hj hd
    exact h.distinct k j c d (Ne.symm hj) (hnext c hc).1 hd

private theorem mem_releaseAttempt (status : JobAttemptStatus) (error : Option String) (now : Int)
    {row : JobAttemptRow} (h : row ∈ rows) (hid : row.id ≠ attemptId) :
    row ∈ releaseAttempt attemptId status error now rows :=
  mem_updateWhere.mpr ⟨row,h,if_neg (by simpa using hid)⟩

private theorem mem_releaseAttempt_self {status : JobAttemptStatus} {error : Option String}
    {now : Int}
    {row : JobAttemptRow} (h : row ∈ rows) :
    { row with status, releasedAt := some now, error := error <|> row.error } ∈
      releaseAttempt row.id status error now rows :=
  mem_updateWhere.mpr ⟨row,h,if_pos (beq_self_eq_true _)⟩

private theorem releaseAttempt_ids (status : JobAttemptStatus) (error : Option String) (now : Int) :
    (releaseAttempt attemptId status error now rows).map JobAttemptRow.id =
      rows.map JobAttemptRow.id := by
  apply map_updateWhere JobAttemptRow.id
  exact fun _ => rfl

private theorem closedForGood_release (hn : (rows.map JobAttemptRow.id).Nodup) {row : JobAttemptRow}
    (hrow : row ∈ rows) (hopen : row.status = .claimed) (status : JobAttemptStatus)
    (error : Option String) (now : Int) :
    ClosedForGood rows (releaseAttempt row.id status error now rows) := by
  intro old hold hclosed
  have hne : old.id ≠ row.id := by
    intro heq
    rw [eq_of_key_eq hn hold hrow heq] at hclosed
    exact hclosed hopen
  have hkept := mem_releaseAttempt status error now hold hne
  refine ⟨⟨old,hkept,rfl⟩,?_⟩
  intro row' hrow' hid
  have hn' : ((releaseAttempt row.id status error now rows).map JobAttemptRow.id).Nodup := by
    rw [releaseAttempt_ids]
    exact hn
  rw [eq_of_key_eq hn' hrow' hkept hid]

private theorem not_closedForGood_release {row : JobAttemptRow} (hrow : row ∈ rows)
    (hclosed : row.status ≠ .claimed) {status : JobAttemptStatus} (hstatus : status ≠ row.status)
    (error : Option String) (now : Int) :
    ¬ ClosedForGood rows (releaseAttempt row.id status error now rows) := by
  intro hgood
  exact hstatus ((hgood row hrow hclosed).2 _ (mem_releaseAttempt_self hrow) rfl)

private theorem JobTables.Audited.release (h : tables.Audited)
    (hn : (tables.jobAttempts.map JobAttemptRow.id).Nodup) {row : JobAttemptRow}
    (hrow : row ∈ tables.jobAttempts) (hopen : row.status = .claimed)
    {status : JobAttemptStatus} (hstatus : status ≠ .claimed) (error : Option String) (now : Int)
    {f : JobRow π → JobRow π} (hf : ∀ job, (f job).id = job.id ∧ (f job).status ≠ .processing) :
    JobTables.Audited { tables with
      jobs := updateWhere (·.id == row.jobId) f tables.jobs
      jobAttempts := releaseAttempt row.id status error now tables.jobAttempts } := by
  have hopenFor : row.isOpenFor row.jobId = true := by
    simp [JobAttemptRow.isOpenFor,hopen]
  have hcount := openAttempts_release hn hrow hopenFor hstatus error now
  apply forall_mem_updateWhere (Q := fun job => openAttempts
    (releaseAttempt row.id status error now tables.jobAttempts) job.id =
      if job.status = .processing then 1 else 0) h
  · intro job hjob hjobOpen hhit
    have hid : job.id = row.jobId := by simpa using hhit
    rw [(hf job).1,if_neg (hf job).2]
    have hself := hcount job.id
    rw [if_pos hid,hjobOpen] at hself
    split at hself <;> omega
  · intro job hjob hjobOpen hmiss
    have hid : job.id ≠ row.jobId := by simpa using hmiss
    have hother := hcount job.id
    rw [if_neg hid,Nat.add_zero] at hother
    rw [← hjobOpen]
    exact hother

private theorem Trail.release (h : Trail tables worker) {claim : ClaimedJob π}
    (hk : (worker k).phase.claim = some claim) {row : JobAttemptRow}
    (hrow : row ∈ tables.jobAttempts) (hid : row.id = claim.attemptId)
    (hjob : row.jobId = claim.job.id) (hopen : row.status = .claimed)
    {status : JobAttemptStatus} (hstatus : status ≠ .claimed) (error : Option String) (now : Int)
    {f : JobRow π → JobRow π} (hf : ∀ job, (f job).id = job.id ∧ (f job).status ≠ .processing)
    (hnext : ∀ c, next.phase.claim = some c → c = claim ∧ next.phase.allows status = true) :
    Trail { tables with
        jobs := updateWhere (·.id == claim.job.id) f tables.jobs
        jobAttempts := releaseAttempt claim.attemptId status error now tables.jobAttempts }
      (Function.update worker k next) := by
  rw [← hid,← hjob]
  constructor
  · show ((releaseAttempt _ _ _ _ _).map _).Nodup
    rw [releaseAttempt_ids]
    exact h.ids
  · exact forall_mem_updateWhere h.seq (fun _ _ hseq _ => hseq) fun _ _ hseq _ => hseq
  · show ∀ r ∈ releaseAttempt _ _ _ _ _, r.jobId ∈ (updateWhere _ f tables.jobs).map JobRow.id
    rw [map_updateWhere JobRow.id (fun job => (hf job).1)]
    exact forall_mem_updateWhere h.foreign (fun _ _ hmem _ => hmem) fun _ _ hmem _ => hmem
  · exact h.audited.release h.ids hrow hopen hstatus error now hf
  · apply follows_update
    · intro c hc
      obtain ⟨rfl,hallows⟩ := hnext c hc
      exact ⟨_,mem_releaseAttempt_self hrow,hid,hjob,hallows⟩
    · intro j hj c hc
      obtain ⟨r,hr,hrid,hrest⟩ := h.follows j c hc
      have hne : r.id ≠ row.id := by
        rw [hrid,hid]
        exact h.distinct j k c claim hj hc hk
      exact ⟨r,mem_releaseAttempt _ _ _ hr hne,hrid,hrest⟩
  · apply distinct_update h.distinct
    intro c hc j d hj hd
    rw [(hnext c hc).1]
    exact h.distinct k j claim d (Ne.symm hj) hk hd

/-- The rows that a claim finds, with those that it expires. -/
def keptAttempts (jobId : Nat) (takesOver : Prop) [Decidable takesOver] (now : Int)
    (rows : List JobAttemptRow) : List JobAttemptRow :=
  if takesOver then expireAttempts jobId now rows else rows

variable {takesOver : Prop} [Decidable takesOver] {now : Int}

private theorem claimJob_attempts {tables' : JobTables π} {locked : Nat → Bool} {tie : Nat → Nat}
    {now : Int} {workerId : String} {leaseMs : Int} {claim : ClaimedJob π}
    (h : claimJob tables locked tie now workerId leaseMs = (tables',some claim)) :
    ∃ old ∈ tables.jobs, (old.status = .pending ∨ old.status = .processing) ∧
      claim.job.id = old.id ∧ claim.attemptId = tables.attemptSeq + 1 ∧
      tables'.jobs = updateWhere (·.id == old.id) (·.claim workerId now leaseMs) tables.jobs ∧
      tables'.attemptSeq = tables.attemptSeq + 1 ∧
      ∃ row, row.id = claim.attemptId ∧ row.jobId = old.id ∧ row.status = .claimed ∧
        tables'.jobAttempts =
          keptAttempts old.id (old.status = .processing) now tables.jobAttempts ++ [row] := by
  unfold claimJob at h
  split at h
  · cases h
  · rename_i old hold
    obtain ⟨hmem,hclaimable,_⟩ := selectSkipLocked_some hold
    cases h
    let row : JobAttemptRow :=
      { id := tables.attemptSeq + 1, jobId := old.id, workerId,
        attemptNumber := old.attempts + 1, status := .claimed, claimedAt := now }
    refine ⟨old,hmem,?_,rfl,rfl,rfl,rfl,row,rfl,rfl,rfl,?_⟩
    · unfold JobRow.claimable at hclaimable
      cases hs : old.status <;> simp [hs] at hclaimable ⊢
    · simp only [beq_iff_eq]
      rfl

private theorem keptAttempts_row (jobId : Nat) (takesOver : Prop) [Decidable takesOver] (now : Int)
    {row : JobAttemptRow} (hrow : row ∈ rows) :
    ∃ row' ∈ keptAttempts jobId takesOver now rows, row'.id = row.id ∧ row'.jobId = row.jobId ∧
      (row'.status = row.status ∨ row.status = .claimed ∧ row'.status = .expired) := by
  unfold keptAttempts
  split
  · by_cases hhit : (row.jobId == jobId && row.status == .claimed) = true
    · refine ⟨_,mem_updateWhere.mpr ⟨row,hrow,if_pos hhit⟩,rfl,rfl,.inr ⟨?_,rfl⟩⟩
      rw [Bool.and_eq_true,beq_iff_eq,beq_iff_eq] at hhit
      exact hhit.2
    · exact ⟨row,mem_updateWhere.mpr ⟨row,hrow,if_neg hhit⟩,rfl,rfl,.inl rfl⟩
  · exact ⟨row,hrow,rfl,rfl,.inl rfl⟩

private theorem keptAttempts_map {κ : Type} (key : JobAttemptRow → κ)
    (hkey : ∀ (row : JobAttemptRow) status releasedAt,
      key { row with status, releasedAt } = key row) :
    (keptAttempts jobId takesOver now rows).map key = rows.map key := by
  unfold keptAttempts
  split
  · apply map_updateWhere key
    exact fun row => hkey row _ _
  · rfl

private theorem forall_keptAttempts {κ : Type} {P : κ → Prop} (key : JobAttemptRow → κ)
    (hkey : ∀ (row : JobAttemptRow) status releasedAt,
      key { row with status, releasedAt } = key row) (h : ∀ row ∈ rows, P (key row)) :
    ∀ row ∈ keptAttempts jobId takesOver now rows, P (key row) := by
  intro row hrow
  have hmem : key row ∈ (keptAttempts jobId takesOver now rows).map key := List.mem_map_of_mem hrow
  rw [keptAttempts_map key hkey] at hmem
  obtain ⟨old,hold,heq⟩ := List.mem_map.mp hmem
  exact heq ▸ h old hold

theorem openAttempts_kept (hnone : ¬ takesOver → openAttempts rows jobId = 0) (j : Nat) :
    openAttempts (keptAttempts jobId takesOver now rows) j =
      if j = jobId then 0 else openAttempts rows j := by
  unfold keptAttempts
  split
  · exact openAttempts_expire rows now j
  · rename_i hfirst
    split
    · rename_i hj
      rw [hj]
      exact hnone hfirst
    · rfl

/-- A worker may find its attempt expired in every phase. -/
theorem WorkerPhase.allows_expired (phase : WorkerPhase π) : phase.allows .expired = true := by
  cases phase <;> rfl

theorem JobTables.Audited.claim (h : tables.Audited) {old : JobRow π} (hold : old ∈ tables.jobs)
    {row : JobAttemptRow} (hjob : row.jobId = old.id) (hopen : row.status = .claimed)
    (workerId : String) (leaseMs : Int) {tables' : JobTables π}
    (hjobs : tables'.jobs =
      updateWhere (·.id == old.id) (·.claim workerId now leaseMs) tables.jobs)
    (hattempts : tables'.jobAttempts =
      keptAttempts old.id (old.status = .processing) now tables.jobAttempts ++ [row]) :
    tables'.Audited := by
  have hnone : old.status ≠ .processing → openAttempts tables.jobAttempts old.id = 0 := by
    intro hpending
    rw [h old hold,if_neg hpending]
  have hself : row.isOpenFor old.id = true := by
    unfold JobAttemptRow.isOpenFor
    rw [hjob,hopen,beq_self_eq_true]
    rfl
  have hcount : ∀ j, openAttempts tables'.jobAttempts j =
      if j = old.id then 1 else openAttempts tables.jobAttempts j := by
    intro j
    rw [hattempts,openAttempts_append,openAttempts_kept hnone,isOpenFor_eq_decide hself]
    by_cases hj : j = old.id <;> simp [hj]
  unfold JobTables.Audited
  rw [hjobs]
  apply forall_mem_updateWhere (Q := fun job => openAttempts tables'.jobAttempts job.id =
    if job.status = .processing then 1 else 0) h
  · intro job _ _ hhit
    have hjobId : job.id = old.id := by simpa using hhit
    rw [hcount]
    show (if job.id = old.id then 1 else _) = if JobStatus.processing = .processing then 1 else 0
    rw [if_pos hjobId,if_pos rfl]
  · intro job _ hjobOpen hmiss
    have hjobId : job.id ≠ old.id := by simpa using hmiss
    rw [hcount,if_neg hjobId]
    exact hjobOpen

theorem closedForGood_claim {row : JobAttemptRow}
    (hnodup : ((keptAttempts jobId takesOver now rows ++ [row]).map JobAttemptRow.id).Nodup) :
    ClosedForGood rows (keptAttempts jobId takesOver now rows ++ [row]) := by
  intro old hold hclosed
  obtain ⟨kept,hkept,hid,_,hstatus⟩ := keptAttempts_row jobId takesOver now hold
  have hmem : kept ∈ keptAttempts jobId takesOver now rows ++ [row] :=
    List.mem_append_left _ hkept
  refine ⟨⟨kept,hmem,hid⟩,?_⟩
  intro q hq hqid
  rw [eq_of_key_eq hnodup hq hmem (hqid.trans hid.symm)]
  rcases hstatus with hsame | ⟨hclaimed,_⟩
  · exact hsame
  · exact absurd hclaimed hclosed

theorem Trail.claim (h : Trail tables worker) {tables' : JobTables π} {locked : Nat → Bool}
    {tie : Nat → Nat} {workerId : String} {leaseMs : Int} {claim : ClaimedJob π}
    (hclaim : claimJob tables locked tie now workerId leaseMs = (tables',some claim))
    (hnext : ∀ c, next.phase.claim = some c → c = claim ∧ next.phase.allows .claimed = true) :
    Trail tables' (Function.update worker k next) ∧
      ClosedForGood tables.jobAttempts tables'.jobAttempts := by
  obtain ⟨old,hold,hstatus,hjob,hattempt,hjobs,hseq,row,hid,hrowJob,hopen,hattempts⟩ :=
    claimJob_attempts hclaim
  have hkept : ∀ r ∈ keptAttempts old.id (old.status = .processing) now tables.jobAttempts,
      r.id ≤ tables.attemptSeq :=
    forall_keptAttempts (P := (· ≤ tables.attemptSeq)) JobAttemptRow.id (fun _ _ _ => rfl) h.seq
  have hnodup : (tables'.jobAttempts.map JobAttemptRow.id).Nodup := by
    rw [hattempts]
    apply nodup_append_next
    · rw [keptAttempts_map JobAttemptRow.id fun _ _ _ => rfl]
      exact h.ids
    · intro r hr
      rw [hid,hattempt]
      exact Nat.lt_succ_of_le (hkept r hr)
  have hjobIds : tables'.jobs.map JobRow.id = tables.jobs.map JobRow.id := by
    rw [hjobs]
    apply map_updateWhere JobRow.id
    exact fun _ => rfl
  constructor
  · constructor
    · exact hnodup
    · rw [hattempts,hseq]
      apply forall_append_next
      · exact fun r hr => Nat.le_succ_of_le (hkept r hr)
      · rw [hid,hattempt]
    · rw [hattempts,hjobIds]
      apply forall_append_next
      · exact forall_keptAttempts (P := (· ∈ tables.jobs.map JobRow.id)) JobAttemptRow.jobId
          (fun _ _ _ => rfl) h.foreign
      · rw [hrowJob]
        exact List.mem_map_of_mem hold
    · exact h.audited.claim hold hrowJob hopen workerId leaseMs hjobs hattempts
    · rw [hattempts]
      apply follows_update
      · intro c hc
        obtain ⟨rfl,hallows⟩ := hnext c hc
        exact ⟨row,List.mem_append_right _ (List.mem_singleton_self _),hid,
          hrowJob.trans hjob.symm,hopen ▸ hallows⟩
      · intro j _ c hc
        obtain ⟨r,hr,hrid,hrjob,hallows⟩ := h.follows j c hc
        obtain ⟨r',hr',hid',hjob',hstatus'⟩ :=
          keptAttempts_row old.id (old.status = .processing) now hr
        refine ⟨r',List.mem_append_left _ hr',hid'.trans hrid,hjob'.trans hrjob,?_⟩
        rcases hstatus' with hsame | ⟨hclaimed,hexpired⟩
        · rw [hsame]
          exact hallows
        · rw [hexpired]
          exact WorkerPhase.allows_expired _
    · apply distinct_update h.distinct
      intro c hc j d _ hd
      obtain ⟨r,hr,hrid,_⟩ := h.follows j d hd
      have hle := h.seq r hr
      rw [(hnext c hc).1,hattempt,← hrid]
      omega
  · rw [hattempts] at hnodup ⊢
    exact closedForGood_claim hnodup

private theorem failJob_tables {tables' : JobTables π} {now : Int} {message : String}
    {r : FailResult}
    (h : failJob tables now jobId attemptId message = .ok (tables',r)) :
    ∃ job : JobRow π, rowAt JobRow.id tables.jobs jobId = some job ∧ { tables with
      jobs := updateWhere (·.id == jobId) (·.fail job.terminal message now) tables.jobs
      jobAttempts := releaseAttempt attemptId .failed (some message) now tables.jobAttempts } =
        tables' := by
  unfold failJob at h
  split at h
  · cases h
  · rename_i job hjob
    cases h
    exact ⟨job,hjob,rfl⟩

private theorem Trail.dropped (h : Trail tables worker) (hnext : next.phase.claim = none) :
    Trail tables (Function.update worker k next) := by
  apply h.moved
  intro c hc
  rw [hnext] at hc
  cases hc

theorem attemptOpen_iff {phase : WorkerPhase π} {claim : ClaimedJob π}
    (hclaim : phase.claim = some claim) (hn : (rows.map JobAttemptRow.id).Nodup)
    {row : JobAttemptRow} (hrow : row ∈ rows) (hid : row.id = claim.attemptId) :
    phase.attemptOpen rows = true ↔ row.status = .claimed := by
  unfold WorkerPhase.attemptOpen
  rw [hclaim,Option.all_some,List.any_eq_true]
  constructor
  · rintro ⟨r,hr,hopen⟩
    rw [Bool.and_eq_true,beq_iff_eq,beq_iff_eq] at hopen
    rw [← eq_of_key_eq hn hr hrow (hopen.1.trans hid.symm)]
    exact hopen.2
  · intro hopen
    refine ⟨row,hrow,?_⟩
    rw [hid,hopen,beq_self_eq_true,beq_self_eq_true]
    rfl

private theorem Trail.attempt (h : Trail w.tables w.worker) {claim : ClaimedJob π}
    (hclaim : (w.worker k).phase.claim = some claim) :
    ∃ row ∈ w.tables.jobAttempts, row.id = claim.attemptId ∧ row.jobId = claim.job.id ∧
      (w.worker k).phase.allows row.status = true ∧
      ((w.worker k).phase.attemptOpen w.tables.jobAttempts = true ↔ row.status = .claimed) := by
  obtain ⟨row,hrow,hid,hjob,hallows⟩ := h.follows k claim hclaim
  exact ⟨row,hrow,hid,hjob,hallows,attemptOpen_iff hclaim h.ids hrow hid⟩

theorem closedForGood_refl (hn : (rows.map JobAttemptRow.id).Nodup) : ClosedForGood rows rows := by
  intro row hrow _
  refine ⟨⟨row,hrow,rfl⟩,?_⟩
  intro row' hrow' hid
  rw [eq_of_key_eq hn hrow' hrow hid]

private theorem Trail.complete (h : Trail w.tables w.worker) {claim : ClaimedJob π}
    (hclaim : (w.worker k).phase.claim = some claim)
    (hopen : (w.worker k).phase.attemptOpen w.tables.jobAttempts = true) (now : Int)
    (hnext : ∀ c, next.phase.claim = some c → c = claim ∧ next.phase.allows .completed = true) :
    Trail (completeJob w.tables now claim.job.id claim.attemptId)
        (Function.update w.worker k next) ∧
      ClosedForGood w.tables.jobAttempts
        (completeJob w.tables now claim.job.id claim.attemptId).jobAttempts := by
  obtain ⟨row,hrow,hid,hjob,_,hiff⟩ := h.attempt hclaim
  have hclaimed := hiff.mp hopen
  have hclosed : ∀ job : JobRow π, (job.complete now).id = job.id ∧
      (job.complete now).status ≠ .processing := by
    intro job
    refine ⟨rfl,?_⟩
    intro hstatus
    cases hstatus
  constructor
  · exact h.release hclaim hrow hid hjob hclaimed (by decide) none now hclosed hnext
  · exact hid ▸ closedForGood_release h.ids hrow hclaimed .completed none now

private theorem Trail.fail (h : Trail w.tables w.worker) {claim : ClaimedJob π}
    (hclaim : (w.worker k).phase.claim = some claim)
    (hopen : (w.worker k).phase.attemptOpen w.tables.jobAttempts = true) {now : Int}
    {message : String} {tables' : JobTables π} {r : FailResult}
    (hfail : failJob w.tables now claim.job.id claim.attemptId message = .ok (tables',r))
    (hnext : next.phase.claim = none) : Trail tables' (Function.update w.worker k next) ∧
      ClosedForGood w.tables.jobAttempts tables'.jobAttempts := by
  obtain ⟨row,hrow,hid,hjob,_,hiff⟩ := h.attempt hclaim
  have hclaimed := hiff.mp hopen
  obtain ⟨job,_,rfl⟩ := failJob_tables hfail
  have hclosed : ∀ j : JobRow π, (j.fail job.terminal message now).id = j.id ∧
      (j.fail job.terminal message now).status ≠ .processing := by
    intro j
    refine ⟨rfl,?_⟩
    show (if job.terminal = true then JobStatus.failed else .pending) ≠ .processing
    cases job.terminal <;> decide
  constructor
  · apply h.release hclaim hrow hid hjob hclaimed (by decide) (some message) now hclosed
    intro c hc
    rw [hnext] at hc
    cases hc
  · exact hid ▸ closedForGood_release h.ids hrow hclaimed .failed (some message) now

/-- A failing worker may find its attempt in more statuses than one that is at work. -/
theorem allows_failing {phase : WorkerPhase π} {claim : ClaimedJob π}
    (hphase : phase = .processing claim ∨ phase = .completing claim) (message : String)
    (status : JobAttemptStatus) (hallows : phase.allows status = true) :
    (WorkerPhase.failing claim message).allows status = true := by
  rcases hphase with rfl | rfl <;> cases status <;> first | rfl | cases hallows

theorem Trail.step (h : Trail w.tables w.worker) {e : QueueEvent} (hok : ClosesOpenAttempt w e)
    (hstep : queueStep w e = some w') : Trail w'.tables w'.worker ∧
      ClosedForGood w.tables.jobAttempts w'.tables.jobAttempts := by
  have hsame := closedForGood_refl h.ids
  cases e with
  | claim k now locked tie commit =>
    simp only [queueStep] at hstep
    split at hstep
    · split at hstep
      · split at hstep
        · cases hstep
          exact ⟨h.dropped rfl,hsame⟩
        · rename_i tables claim hclaim
          cases commit with
          | acknowledged =>
            cases hstep
            apply h.claim hclaim
            intro c hc
            exact ⟨(Option.some.inj hc).symm,rfl⟩
          | replyLost =>
            cases hstep
            apply h.claim hclaim
            intro c hc
            cases hc
          | rolledBack =>
            cases hstep
            exact ⟨h.dropped rfl,hsame⟩
      · cases hstep
    · cases hstep
  | process k error =>
    simp only [queueStep] at hstep
    split at hstep <;> cases hstep
    · rename_i claim hphase
      refine ⟨h.moved ?_,hsame⟩
      intro c hc
      rw [hphase]
      exact ⟨hc,fun _ hallows => hallows⟩
    · rename_i claim message hphase
      refine ⟨h.moved ?_,hsame⟩
      intro c hc
      rw [hphase]
      exact ⟨hc,allows_failing (.inl rfl) message⟩
  | complete k now commit error =>
    simp only [queueStep] at hstep
    split at hstep
    · rename_i claim hphase
      have hclaim : (w.worker k).phase.claim = some claim := by
        rw [hphase]
        rfl
      cases commit with
      | acknowledged =>
        cases hstep
        apply h.complete hclaim (hok rfl)
        intro c hc
        cases hc
      | replyLost =>
        cases hstep
        apply h.complete hclaim (hok rfl)
        intro c hc
        exact ⟨(Option.some.inj hc).symm,rfl⟩
      | rolledBack =>
        cases hstep
        refine ⟨h.moved ?_,hsame⟩
        intro c hc
        rw [hphase]
        exact ⟨hc,allows_failing (.inr rfl) error⟩
    · cases hstep
  | fail k now commit =>
    simp only [queueStep] at hstep
    split at hstep
    · rename_i claim message hphase
      have hclaim : (w.worker k).phase.claim = some claim := by
        rw [hphase]
        rfl
      split at hstep
      · cases hstep
        exact ⟨h.dropped rfl,hsame⟩
      · rename_i tables result hfail
        cases commit with
        | acknowledged =>
          cases hstep
          exact h.fail hclaim (hok rfl) hfail rfl
        | replyLost =>
          cases hstep
          exact h.fail hclaim (hok rfl) hfail rfl
        | rolledBack =>
          cases hstep
          exact ⟨h.dropped rfl,hsame⟩
    · cases hstep
  | crash k =>
    cases hstep
    exact ⟨h.dropped rfl,hsame⟩
  | advance ms =>
    cases hstep
    exact ⟨h,hsame⟩

/-- A late `completeJob` or `failJob` rewrites a row that was closed. -/
theorem Trail.breaks (h : Trail w.tables w.worker) {e : QueueEvent}
    (hstep : queueStep w e = some w') (hlate : ¬ ClosesOpenAttempt w e) :
    ¬ ClosedForGood w.tables.jobAttempts w'.tables.jobAttempts := by
  cases e with
  | complete k now commit error =>
    obtain ⟨happlied,hclosed⟩ := Classical.not_imp.mp hlate
    simp only [queueStep] at hstep
    split at hstep
    · rename_i claim hphase
      have hclaim : (w.worker k).phase.claim = some claim := by
        rw [hphase]
        rfl
      obtain ⟨row,hrow,hid,_,hallows,hiff⟩ := h.attempt hclaim
      have hrowClosed : row.status ≠ .claimed := fun hopen => hclosed (hiff.mpr hopen)
      have hcompleted : JobAttemptStatus.completed ≠ row.status := by
        intro heq
        rw [hphase,← heq] at hallows
        cases hallows
      have hbroken : ¬ ClosedForGood w.tables.jobAttempts
          (completeJob w.tables now claim.job.id claim.attemptId).jobAttempts :=
        hid ▸ not_closedForGood_release hrow hrowClosed hcompleted none now
      cases commit with
      | acknowledged =>
        cases hstep
        exact hbroken
      | replyLost =>
        cases hstep
        exact hbroken
      | rolledBack => cases happlied
    · cases hstep
  | fail k now commit =>
    obtain ⟨happlied,hclosed⟩ := Classical.not_imp.mp hlate
    simp only [queueStep] at hstep
    split at hstep
    · rename_i claim message hphase
      have hclaim : (w.worker k).phase.claim = some claim := by
        rw [hphase]
        rfl
      obtain ⟨row,hrow,hid,hjob,hallows,hiff⟩ := h.attempt hclaim
      have hrowClosed : row.status ≠ .claimed := fun hopen => hclosed (hiff.mpr hopen)
      have hfailed : JobAttemptStatus.failed ≠ row.status := by
        intro heq
        rw [hphase,← heq] at hallows
        cases hallows
      split at hstep
      · rename_i text hfail
        obtain ⟨job,hjobRow,hjobId⟩ := List.mem_map.mp (h.foreign row hrow)
        unfold failJob at hfail
        split at hfail
        · rename_i hnone
          have hmiss := List.find?_eq_none.mp hnone job hjobRow
          rw [hjobId,hjob] at hmiss
          exact absurd (decide_eq_true rfl) hmiss
        · cases hfail
      · rename_i tables result hfail
        obtain ⟨job,_,rfl⟩ := failJob_tables hfail
        have hbroken : ¬ ClosedForGood w.tables.jobAttempts (releaseAttempt claim.attemptId
            .failed (some message) now w.tables.jobAttempts) :=
          hid ▸ not_closedForGood_release hrow hrowClosed hfailed (some message) now
        cases commit with
        | acknowledged =>
          cases hstep
          exact hbroken
        | replyLost =>
          cases hstep
          exact hbroken
        | rolledBack => cases happlied
    · cases hstep
  | _ => exact absurd trivial hlate

private theorem QueueWorld.Fresh.trail (h : w.Fresh) : Trail w.tables w.worker := by
  obtain ⟨_,hattempts,_,hphase,hjobs⟩ := h
  have hnone : ∀ k, (w.worker k).phase.claim = none := fun k => by rw [hphase k]; rfl
  constructor
  · rw [hattempts]
    exact List.nodup_nil
  · rw [hattempts]
    exact fun _ hrow => absurd hrow List.not_mem_nil
  · rw [hattempts]
    exact fun _ hrow => absurd hrow List.not_mem_nil
  · intro job hjob
    rw [hattempts,(hjobs job hjob).1]
    rfl
  · intro k claim hclaim
    rw [hnone k] at hclaim
    cases hclaim
  · intro j k c d _ hc
    rw [hnone j] at hc
    cases hc

/-- Every step of a run keeps the trail, if and only if every committed `completeJob` and
`failJob` of the run finds its attempt open. -/
theorem attempts_audited_iff {w₀ w : QueueWorld π} (h : w₀.Fresh) {es : List QueueEvent}
    (hrun : run queueStep w₀ es = some w) :
    Along queueStep KeepsTrail w₀ es ↔ Along queueStep ClosesOpenAttempt w₀ es := by
  apply along_iff (fun w => Trail w.tables w.worker)
  · intro s e t hs hok hstep
    exact (hs.step hok hstep).1
  · intro s e t hs hstep
    constructor
    · intro hkeeps
      by_contra hlate
      exact hs.breaks hstep hlate (hkeeps t hstep).2
    · intro hok t' hstep'
      obtain ⟨htrail,hclosed⟩ := hs.step hok hstep'
      exact ⟨htrail.audited,hclosed⟩
  · exact h.trail
  · exact hrun

/-- The job is taken over from worker 0 and goes on to its second worker's end. -/
theorem takeover_audited :
    Along queueStep KeepsTrail oneJob (takeover ++ [.process 1 none,.complete 1 11 .acknowledged "",
      claimNow 1 11]) := by
  have hrun : (run queueStep oneJob (takeover ++ [.process 1 none,
    .complete 1 11 .acknowledged "",claimNow 1 11])).isSome = true := by decide
  obtain ⟨w,hw⟩ := Option.isSome_iff_exists.mp hrun
  exact (attempts_audited_iff oneJob_fresh hw).mpr (by decide)

/-- Worker 0 completes late: its expired attempt becomes `completed`, and the attempt of worker 1
stays open while the job is completed. -/
theorem takeover_not_audited : ¬ ∀ (w₀ w : QueueWorld Unit) (es : List QueueEvent), w₀.Fresh →
    run queueStep w₀ es = some w → Along queueStep KeepsTrail w₀ es := by
  intro hclaim
  let es := takeover ++ [.process 0 none,.complete 0 11 .acknowledged ""]
  have hrun : (run queueStep oneJob es).isSome = true := by decide
  obtain ⟨w,hw⟩ := Option.isSome_iff_exists.mp hrun
  have hkeeps := hclaim oneJob w es oneJob_fresh hw
  have hlate : ¬ Along queueStep KeepsTrail oneJob es := by decide
  exact hlate hkeeps

end SystemsLab.Queue
