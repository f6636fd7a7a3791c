import SystemsLab.Backfill.DisplayName

/-!
# Both columns in lock-step

Whatever a statement writes has both columns equal, and that is all that ever becomes visible: a
row that is still `NULL` was never written. A backfill that finds no such row can return, and one
that finds some leaves fewer, so it takes a bounded number of steps of its own.
-/

namespace SystemsLab.Backfill

variable {w w' : CustomerWorld} {n m : Nat} {who : Option Nat} {c c' : CustomerCall} {id : Int}

/-- A statement of `c` ends. -/
inductive CustomerCall.Commits : CustomerCall → CustomerCall → Prop
  | renamed (id : Int) (fullName : String) :
      Commits (.rename id fullName .committing) (.rename id fullName .returned)
  | returned (batchSize batches rowsBackfilled : Nat) :
      Commits (.backfill batchSize batches rowsBackfilled (.updating [] 0))
        (.backfill batchSize batches rowsBackfilled .returned)
  | again (batchSize batches rowsBackfilled updated : Nat) :
      Commits (.backfill batchSize batches rowsBackfilled (.updating [] (updated + 1)))
        (.backfill batchSize (batches + 1) (rowsBackfilled + (updated + 1)) .selecting)

/-- The loop of a backfill has not been left. -/
def BatchPhase.isActive : BatchPhase → Bool
  | .selecting => true
  | .updating _ _ => true
  | _ => false

inductive CustomerCall.Aborts : CustomerCall → CustomerCall → Prop
  | rename (id : Int) (fullName : String) (phase : RenamePhase) :
      Aborts (.rename id fullName phase) (.rename id fullName .threw)
  | backfill (batchSize batches rowsBackfilled : Nat) (phase : BatchPhase) :
      phase.isActive = true →
      Aborts (.backfill batchSize batches rowsBackfilled phase)
        (.backfill batchSize batches rowsBackfilled .threw)

/-- What a call and the rows become by a step of the call. -/
inductive CustomerCall.Moves (w : CustomerWorld) (n : Nat) :
    CustomerCall → CustomerCall → RowVersions Int Nat Customer → Prop
  | skipped (id : Int) (fullName : String) :
      Moves w n (.rename id fullName .updating) (.rename id fullName .returned) w.rows
  | renamed (id : Int) (fullName : String) (customer : Customer) : id ∈ w.ids →
      (w.rows id).version n = some customer →
      Moves w n (.rename id fullName .updating) (.rename id fullName .committing)
        (w.rows.put n id (customer.rename fullName))
  | selected (batchSize batches rowsBackfilled : Nat) :
      Moves w n (.backfill batchSize batches rowsBackfilled .selecting)
        (.backfill batchSize batches rowsBackfilled (.updating (w.pendingIds batchSize) 0)) w.rows
  | copied (batchSize batches rowsBackfilled : Nat) (remaining : List Int) (updated : Nat) (id : Int)
      (customer : Customer) : id ∈ remaining → (w.rows id).version n = some customer →
      Moves w n (.backfill batchSize batches rowsBackfilled (.updating remaining updated))
        (.backfill batchSize batches rowsBackfilled
          (.updating (remaining.filter (· ≠ id)) (updated + 1)))
        (w.rows.put n id customer.copyName)
  | committed {c c' : CustomerCall} : c.Commits c' → Moves w n c c' (w.rows.commit n)
  | aborted {c c' : CustomerCall} : c.Aborts c' → Moves w n c c' (w.rows.rollback n)

/-- What the world becomes by a step of the call `mover`, or by one that no call takes. -/
inductive CustomerMove (w : CustomerWorld) : Option Nat → CustomerWorld → Prop
  | inserted (id : Int) (fullName email country : String) : id ∉ w.ids →
      CustomerMove w none (w.insertCustomer id fullName email country)
  | renameStarted (n : Nat) (id : Int) (fullName : String) : w.call n = none →
      CustomerMove w none (w.put n (.rename id fullName .updating))
  | backfillStarted (n batchSize : Nat) : w.call n = none → 1 ≤ batchSize →
      CustomerMove w none (w.put n (.backfill batchSize 0 0 .selecting))
  | moved (n : Nat) (c c' : CustomerCall) (rows : RowVersions Int Nat Customer) :
      w.call n = some c → c.Moves w n c' rows →
      CustomerMove w (some n) { w.put n c' with rows }

theorem CustomerWorld.move_of_write {f : Customer → Customer}
    (h : w.write n id f c' = some w') :
    ∃ customer, (w.rows id).version n = some customer ∧
      w' = { w.put n c' with rows := w.rows.put n id (f customer) } := by
  obtain ⟨customer,hversion,rfl⟩ := Option.map_eq_some_iff.mp h
  exact ⟨customer,hversion,rfl⟩

theorem CustomerWorld.update_move (hc : w.call n = some c) (h : w.update n id c = some w') :
    CustomerMove w (some n) w' := by
  unfold CustomerWorld.update at h
  split at h
  · split at h
    · rename_i heq
      subst heq
      split at h
      · rename_i hmem
        obtain ⟨customer,hversion,rfl⟩ := move_of_write h
        exact .moved n _ _ _ hc (.renamed _ _ customer hmem hversion)
      · cases h
        exact .moved n _ _ _ hc (.skipped _ _)
    · cases h
  · split at h
    · rename_i hmem
      obtain ⟨customer,hversion,rfl⟩ := move_of_write h
      exact .moved n _ _ _ hc (.copied _ _ _ _ _ _ customer hmem hversion)
    · cases h
  · cases h

theorem CustomerWorld.commit_move (hc : w.call n = some c) (h : w.commit n c = some w') :
    CustomerMove w (some n) w' := by
  unfold CustomerWorld.commit at h
  split at h
  · cases h
    exact .moved n _ _ _ hc (.committed (.renamed _ _))
  · rename_i batchSize batches rowsBackfilled updated
    cases h
    cases updated with
    | zero => exact .moved n _ _ _ hc (.committed (.returned _ _ _))
    | succ updated => exact .moved n _ _ _ hc (.committed (.again _ _ _ _))
  · cases h

theorem CustomerWorld.abort_move (hc : w.call n = some c) (h : w.abort n c = some w') :
    CustomerMove w (some n) w' := by
  unfold CustomerWorld.abort at h
  split at h
  · cases h
  · cases h
  · cases h
    exact .moved n _ _ _ hc (.aborted (.rename _ _ _))
  · cases h
  · cases h
  · cases h
    rename_i batchSize batches rowsBackfilled phase hreturned hthrew
    have hactive : phase.isActive = true := by
      cases phase with
      | selecting => rfl
      | updating remaining updated => rfl
      | returned => exact absurd rfl hreturned
      | threw => exact absurd rfl hthrew
    exact .moved n _ _ _ hc (.aborted (.backfill _ _ _ _ hactive))

/-- The batch sizes that a backfill may be started with. -/
def CustomerEvent.Positive : CustomerEvent → Prop
  | .startBackfill _ batchSize => 1 ≤ batchSize
  | _ => True

instance : ∀ e : CustomerEvent, Decidable e.Positive := by
  intro e
  cases e <;> unfold CustomerEvent.Positive <;> infer_instance

/-- The call that takes a step. -/
def CustomerEvent.mover : CustomerEvent → Option Nat
  | .select n => some n
  | .update n _ => some n
  | .commit n => some n
  | .abort n => some n
  | _ => none

theorem customerStep_move {e : CustomerEvent} (he : e.Positive)
    (h : customerStep w e = some w') : CustomerMove w e.mover w' := by
  cases e with
  | insert id fullName email country =>
    simp only [customerStep] at h
    split at h
    · cases h
    · rename_i hfresh
      cases h
      exact .inserted id fullName email country fun hmem => hfresh (.inl hmem)
  | startRename n id fullName =>
    simp only [customerStep] at h
    split at h
    · cases h
    · rename_i hn
      cases h
      exact .renameStarted n id fullName hn
  | startBackfill n batchSize =>
    simp only [customerStep] at h
    split at h
    · cases h
    · rename_i hn
      cases h
      exact .backfillStarted n batchSize hn he
  | select n =>
    simp only [customerStep] at h
    split at h
    · rename_i hc
      cases h
      exact .moved n _ _ _ hc (.selected _ _ _)
    · cases h
  | update n id =>
    obtain ⟨c,hc,hupdate⟩ := Option.bind_eq_some_iff.mp h
    exact CustomerWorld.update_move hc hupdate
  | commit n =>
    obtain ⟨c,hc,hcommit⟩ := Option.bind_eq_some_iff.mp h
    exact CustomerWorld.commit_move hc hcommit
  | abort n =>
    obtain ⟨c,hc,habort⟩ := Option.bind_eq_some_iff.mp h
    exact CustomerWorld.abort_move hc habort

/-- The call has a statement that may hold locks. -/
def CustomerCall.isOpen : CustomerCall → Bool
  | .rename _ _ .committing => true
  | .backfill _ _ _ (.updating _ _) => true
  | _ => false

/-- What is committed is in lock-step or unset, what is not committed yet is in lock-step. -/
structure CustomerWorld.LockStep (w : CustomerWorld) : Prop where
  committed : ∀ id ∈ w.ids, (w.rows id).committed.displayName = none ∨
    (w.rows id).committed.displayName = some (w.rows id).committed.fullName
  held : ∀ id n customer, (w.rows id).held = some (n,customer) →
    id ∈ w.ids ∧ customer.displayName = some customer.fullName
  holder : ∀ id n, w.rows.holder id = some n → ∃ c, w.call n = some c ∧ c.isOpen = true

/-- Rows stay, and none becomes pending. -/
structure CustomerWorld.Advances (w w' : CustomerWorld) : Prop where
  ids : ∀ id ∈ w.ids, id ∈ w'.ids
  pending : ∀ id ∈ w'.ids, w'.isPending id = true → id ∈ w.ids ∧ w.isPending id = true

theorem CustomerWorld.Advances.trans {w'' : CustomerWorld} (h : w.Advances w')
    (h' : w'.Advances w'') : w.Advances w'' := by
  refine ⟨fun id hid => h'.ids id (h.ids id hid),?_⟩
  intro id hid hpending
  obtain ⟨hid',hpending'⟩ := h'.pending id hid hpending
  exact h.pending id hid' hpending'

theorem isPending_eq_false {customer : Customer} (h : customer.displayName = some customer.fullName) :
    customer.displayName.isNone = false := by
  rw [h]
  rfl

private theorem CustomerWorld.advances_of (rows : RowVersions Int Nat Customer)
    (h : ∀ id, (rows id).committed = (w.rows id).committed ∨
      (rows id).committed.displayName = some (rows id).committed.fullName) :
    w.Advances { w.put n c' with rows } := by
  refine ⟨fun id hid => hid,?_⟩
  intro id hid hpending
  refine ⟨hid,?_⟩
  rcases h id with hsame | hset
  · unfold isPending at hpending ⊢
    rw [← hsame]
    exact hpending
  · have hnot : (rows id).committed.displayName.isNone = false := isPending_eq_false hset
    have hpending : (rows id).committed.displayName.isNone = true := hpending
    rw [hnot] at hpending
    cases hpending

namespace CustomerWorld.LockStep

theorem committed_commit (h : w.LockStep) (n : Nat) (id : Int) :
    (w.rows.commit n id).committed = (w.rows id).committed ∨
      (w.rows.commit n id).committed.displayName =
        some (w.rows.commit n id).committed.fullName := by
  rcases w.rows.commit_cases n id with ⟨hsame,_⟩ | ⟨customer,hheld,hcommit⟩
  · rw [hsame]
    exact .inl rfl
  · rw [hcommit]
    exact .inr (h.held id n customer hheld).2

theorem advances (h : w.LockStep) (hm : CustomerMove w who w') : w.Advances w' := by
  cases hm with
  | inserted id fullName email country hfresh =>
    refine ⟨fun id hid => List.mem_append_left _ hid,?_⟩
    intro k hk hpending
    have hpending : (w.rows.overwrite id ⟨fullName,some fullName,email,country⟩
      k).committed.displayName.isNone = true := hpending
    rcases List.mem_append.mp hk with hold | hnew
    · have hne : k ≠ id := fun heq => hfresh (heq ▸ hold)
      rw [RowVersions.overwrite_of_ne _ _ hne] at hpending
      exact ⟨hold,hpending⟩
    · rw [List.mem_singleton.mp hnew,RowVersions.overwrite_self] at hpending
      cases hpending
  | renameStarted n id fullName hn => exact advances_of w.rows fun _ => .inl rfl
  | backfillStarted n batchSize hn _ => exact advances_of w.rows fun _ => .inl rfl
  | moved n c c' rows hc hmoves =>
    refine advances_of rows fun k => ?_
    cases hmoves with
    | skipped => exact .inl rfl
    | selected => exact .inl rfl
    | renamed id fullName customer => exact .inl (RowVersions.committed_put _ _ _ _ _)
    | copied => exact .inl (RowVersions.committed_put _ _ _ _ _)
    | committed => exact h.committed_commit n k
    | aborted => exact .inl (RowVersions.committed_rollback _ _ _)

private theorem put (h : w.LockStep) (hopen : ∀ id, w.rows.holder id = some n → c'.isOpen = true) :
    (w.put n c').LockStep := by
  refine ⟨h.committed,h.held,?_⟩
  intro id m hholder
  by_cases hm : m = n
  · subst hm
    exact ⟨c',Function.update_self _ _ _,hopen id hholder⟩
  · obtain ⟨c,hc,hcopen⟩ := h.holder id m hholder
    exact ⟨c,(Function.update_of_ne hm _ _).trans hc,hcopen⟩

private theorem write (h : w.LockStep) {customer : Customer} (hid : id ∈ w.ids)
    (hnames : customer.displayName = some customer.fullName) (hopen : c'.isOpen = true) :
    { w.put n c' with rows := w.rows.put n id customer }.LockStep := by
  have hput : (w.put n c').LockStep := h.put fun _ _ => hopen
  refine ⟨?_,?_,?_⟩
  · intro k hk
    show (w.rows.put n id customer k).committed.displayName = none ∨ _
    rw [RowVersions.committed_put]
    exact h.committed k hk
  · intro k m v hheld
    have hheld : (w.rows.put n id customer k).held = some (m,v) := hheld
    by_cases hk : k = id
    · subst hk
      rw [RowVersions.put_self] at hheld
      cases hheld
      exact ⟨hid,hnames⟩
    · rw [RowVersions.put_of_ne _ _ _ hk] at hheld
      exact h.held k m v hheld
  · intro k m hholder
    have hholder : (w.rows.put n id customer).holder k = some m := hholder
    rw [RowVersions.holder_put] at hholder
    split at hholder
    · cases hholder
      exact ⟨c',Function.update_self _ _ _,hopen⟩
    · exact hput.holder k m hholder

private theorem release (h : w.LockStep) {rows : RowVersions Int Nat Customer}
    (hrows : rows = w.rows.commit n ∨ rows = w.rows.rollback n) :
    { w.put n c' with rows }.LockStep := by
  have hholder : ∀ k, rows.holder k = if w.rows.holder k = some n then none else w.rows.holder k := by
    intro k
    rcases hrows with rfl | rfl
    · exact RowVersions.holder_commit _ _ _
    · exact RowVersions.holder_rollback _ _ _
  refine ⟨?_,?_,?_⟩
  · intro k hk
    have hnames := h.committed k hk
    rcases hrows with rfl | rfl
    · rcases h.committed_commit n k with hsame | hset
      · show (w.rows.commit n k).committed.displayName = none ∨ _
        rw [hsame]
        exact hnames
      · exact .inr hset
    · show (w.rows.rollback n k).committed.displayName = none ∨ _
      rw [RowVersions.committed_rollback]
      exact hnames
  · intro k m v hheld
    have hheld : (rows k).held = some (m,v) := hheld
    rcases hrows with rfl | rfl
    · rcases w.rows.commit_cases n k with ⟨hsame,_⟩ | ⟨_,_,hcommit⟩
      · rw [hsame] at hheld
        exact h.held k m v hheld
      · rw [hcommit] at hheld
        cases hheld
    · rcases w.rows.rollback_cases n k with ⟨hsame,_⟩ | ⟨_,_,hrollback⟩
      · rw [hsame] at hheld
        exact h.held k m v hheld
      · rw [hrollback] at hheld
        cases hheld
  · intro k m hk
    have hk : rows.holder k = some m := hk
    rw [hholder] at hk
    split at hk
    · cases hk
    · rename_i hne
      have hm : m ≠ n := fun heq => hne (heq ▸ hk)
      obtain ⟨c,hc,hcopen⟩ := h.holder k m hk
      exact ⟨c,(Function.update_of_ne hm _ _).trans hc,hcopen⟩

private theorem insert (h : w.LockStep) (hfresh : id ∉ w.ids) (fullName email country : String) :
    (w.insertCustomer id fullName email country).LockStep := by
  have hrow : ∀ k ∈ w.ids, (w.insertCustomer id fullName email country).rows k = w.rows k := by
    intro k hk
    exact RowVersions.overwrite_of_ne _ _ fun heq => hfresh (heq ▸ hk)
  have hnew : (w.insertCustomer id fullName email country).rows id =
      { committed := ⟨fullName,some fullName,email,country⟩ } :=
    RowVersions.overwrite_self _ _ _
  have hheld : ∀ k n customer,
      ((w.insertCustomer id fullName email country).rows k).held = some (n,customer) →
        (w.rows k).held = some (n,customer) := by
    intro k n customer hk
    by_cases heq : k = id
    · rw [heq,hnew] at hk
      cases hk
    · rw [show (w.insertCustomer id fullName email country).rows k = w.rows k from
        RowVersions.overwrite_of_ne _ _ heq] at hk
      exact hk
  refine ⟨?_,?_,?_⟩
  · intro k hk
    rcases List.mem_append.mp hk with hold | hlast
    · rw [hrow k hold]
      exact h.committed k hold
    · rw [List.mem_singleton.mp hlast,hnew]
      exact .inr rfl
  · intro k n customer hk
    obtain ⟨hmem,hnames⟩ := h.held k n customer (hheld k n customer hk)
    exact ⟨List.mem_append_left _ hmem,hnames⟩
  · intro k n hk
    obtain ⟨⟨m,customer⟩,hrow,hfst⟩ := Option.map_eq_some_iff.mp hk
    cases hfst
    have hold : w.rows.holder k = some m := by
      rw [RowVersions.holder,hheld k m customer hrow]
      rfl
    exact h.holder k m hold

end CustomerWorld.LockStep

def CustomerWorld.NonePending (w : CustomerWorld) : Prop := ∀ id ∈ w.ids, w.isPending id = false

private theorem CustomerWorld.NonePending.advances (h : w.NonePending) (hadvances : w.Advances w') :
    w'.NonePending := by
  intro id hid
  by_contra hpending
  obtain ⟨hid',hpending'⟩ := hadvances.pending id hid (by simpa using hpending)
  rw [h id hid'] at hpending'
  cases hpending'

/-- A batch that found nothing to update was not needed any more. -/
def BatchPhase.Fits (w : CustomerWorld) : BatchPhase → Prop
  | .updating remaining updated =>
    (∀ id ∈ remaining, id ∈ w.ids) ∧ (remaining = [] → updated = 0 → w.NonePending)
  | .returned => w.NonePending
  | _ => True

def CustomerCall.Fits (w : CustomerWorld) : CustomerCall → Prop
  | .rename _ _ _ => True
  | .backfill batchSize _ _ phase => 1 ≤ batchSize ∧ phase.Fits w

private theorem CustomerCall.Fits.advances (h : c.Fits w) (hadvances : w.Advances w') :
    c.Fits w' := by
  cases c with
  | rename id fullName phase => trivial
  | backfill batchSize batches rowsBackfilled phase =>
    refine ⟨h.1,?_⟩
    have hphase := h.2
    cases phase with
    | selecting => trivial
    | threw => trivial
    | returned => exact hphase.advances hadvances
    | updating remaining updated =>
      refine ⟨fun id hid => hadvances.ids id (hphase.1 id hid),?_⟩
      intro hnil hzero
      exact (hphase.2 hnil hzero).advances hadvances

structure CustomerWorld.Sound (w : CustomerWorld) : Prop where
  ids : w.ids.Nodup
  lockStep : w.LockStep
  calls : ∀ n c, w.call n = some c → c.Fits w

private theorem CustomerWorld.pendingIds_fits {batchSize : Nat} (hsize : 1 ≤ batchSize) :
    (BatchPhase.updating (w.pendingIds batchSize) 0).Fits w := by
  refine ⟨fun id hid => (mem_selectOrdered hid).1,?_⟩
  intro hnil _
  exact (selectOrdered_eq_nil hsize).mp hnil

private theorem CustomerCall.Commits.fits (h : c.Commits c') (hfits : c.Fits w) : c'.Fits w := by
  cases h with
  | renamed id fullName => trivial
  | returned batchSize batches rowsBackfilled => exact ⟨hfits.1,hfits.2.2 rfl rfl⟩
  | again batchSize batches rowsBackfilled updated => exact ⟨hfits.1,trivial⟩

/-- A call fits by its own step, as far as the state before the step is concerned. -/
theorem CustomerCall.Moves.fits {rows : RowVersions Int Nat Customer} (h : c.Moves w n c' rows)
    (hfits : c.Fits w) : c'.Fits w := by
  cases h with
  | skipped => trivial
  | renamed => trivial
  | selected batchSize batches rowsBackfilled =>
    exact ⟨hfits.1,CustomerWorld.pendingIds_fits hfits.1⟩
  | copied batchSize batches rowsBackfilled remaining updated id customer hid hversion =>
    refine ⟨hfits.1,fun k hk => hfits.2.1 k (List.mem_of_mem_filter hk),?_⟩
    intro _ hzero
    cases hzero
  | committed hcommits => exact hcommits.fits hfits
  | aborted haborts =>
    cases haborts with
    | rename => trivial
    | backfill => exact ⟨hfits.1,trivial⟩

private theorem CustomerCall.Moves.lockStep {rows : RowVersions Int Nat Customer} (h : w.LockStep)
    (hc : w.call n = some c) (hfits : c.Fits w) (hmoves : c.Moves w n c' rows) :
    { w.put n c' with rows }.LockStep := by
  cases hmoves with
  | skipped id fullName =>
    apply h.put
    intro k hholder
    obtain ⟨c,hc',hopen⟩ := h.holder k n hholder
    rw [hc] at hc'
    cases hc'
    cases hopen
  | selected => exact h.put fun _ _ => rfl
  | renamed id fullName customer hid => exact h.write hid rfl rfl
  | copied batchSize batches rowsBackfilled remaining updated id customer hid hversion =>
    exact h.write (hfits.2.1 id hid) rfl rfl
  | committed => exact h.release (.inl rfl)
  | aborted => exact h.release (.inr rfl)

namespace CustomerWorld.Sound

theorem move (h : w.Sound) (hm : CustomerMove w who w') : w'.Sound := by
  have hadvances := h.lockStep.advances hm
  have hnoLocks : ∀ n, w.call n = none → ∀ id, w.rows.holder id ≠ some n := by
    intro n hn id hholder
    obtain ⟨c,hc,_⟩ := h.lockStep.holder id n hholder
    rw [hn] at hc
    cases hc
  cases hm with
  | inserted id fullName email country hfresh =>
    refine ⟨List.nodup_append.mpr ⟨h.ids,List.nodup_singleton id,?_⟩,
      h.lockStep.insert hfresh fullName email country,
      fun n c hc => (h.calls n c hc).advances hadvances⟩
    rintro k hk _ hid rfl
    rw [List.mem_singleton.mp hid] at hk
    exact hfresh hk
  | renameStarted n id fullName hn =>
    refine ⟨h.ids,h.lockStep.put fun k hk => absurd hk (hnoLocks n hn k),?_⟩
    intro m c hc
    rcases update_eq_some hc with ⟨_,rfl⟩ | ⟨_,hc⟩
    · trivial
    · exact (h.calls m c hc).advances hadvances
  | backfillStarted n batchSize hn hsize =>
    refine ⟨h.ids,h.lockStep.put fun k hk => absurd hk (hnoLocks n hn k),?_⟩
    intro m c hc
    rcases update_eq_some hc with ⟨_,rfl⟩ | ⟨_,hc⟩
    · exact ⟨hsize,trivial⟩
    · exact (h.calls m c hc).advances hadvances
  | moved n c c' rows hc hmoves =>
    have hfits := h.calls n c hc
    refine ⟨h.ids,hmoves.lockStep h.lockStep hc hfits,?_⟩
    intro m d hd
    rcases update_eq_some hd with ⟨_,rfl⟩ | ⟨_,hd⟩
    · exact (hmoves.fits hfits).advances hadvances
    · exact (h.calls m d hd).advances hadvances

theorem step (h : w.Sound) {e : CustomerEvent} (he : e.Positive)
    (hstep : customerStep w e = some w') : w'.Sound :=
  h.move (customerStep_move he hstep)

theorem of_run {es : List CustomerEvent} (h : w.Sound)
    (hsizes : Along customerStep (fun _ e => e.Positive) w es)
    (hrun : run customerStep w es = some w') : w'.Sound ∧ w.Advances w' := by
  have hstart : w.Sound ∧ w.Advances w :=
    ⟨h,fun id hid => hid,fun id hid hpending => ⟨hid,hpending⟩⟩
  apply hsizes.invariant hrun hstart
  intro v e v' hv he hstep
  have hm := customerStep_move he hstep
  exact ⟨hv.1.move hm,hv.2.trans (hv.1.lockStep.advances hm)⟩

end CustomerWorld.Sound

end SystemsLab.Backfill
