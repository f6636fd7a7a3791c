import SystemsLab.Outbox.Rows

/-!
# The outbox table refines a table of leases

The statements of the outbox are moves of the lease table its rows stand for. This needs one
fact about the clients: a worker that is busy with an event and still named in the row holds
the newest lease on it. The fact is kept because workers have distinct ids and are busy with
one event at a time.
-/

namespace SystemsLab.Outbox

variable {π : Type*}

/-- The table, the history of claims, and the claim each worker is busy with. -/
structure OutboxState (π : Type*) where
  rows : List (OutboxRow π)
  clock : Int
  log : List (LeaseEntry Nat String)
  current : String → Option (Lease Nat String)

def OutboxState.leases (s : OutboxState π) : LeaseTable Nat String :=
  leaseTable s.rows s.clock s.log

structure OutboxState.Sound (s : OutboxState π) : Prop where
  keys : (s.rows.map OutboxRow.id).Nodup
  locks : ∀ row ∈ s.rows, row.WellLocked
  leases : s.leases.Consistent
  taken : ∀ worker l, s.current worker = some l → l ∈ leasesOf l.item s.log
  own : ∀ worker l, s.current worker = some l → l.holder = worker ∧
    ∀ row ∈ s.rows, row.id = l.item → row.lockedBy = some worker → row.slot = .held l

/-- `attempts` counts the claims. -/
theorem OutboxState.Sound.attempts {s : OutboxState π} (h : s.Sound) {row : OutboxRow π}
    (hrow : row ∈ s.rows) : row.attempts = (leasesOf row.id s.log).length := by
  have hgrants : s.leases.grants row.id = row.attempts := LeaseTable.ofRows_grants h.keys hrow
  exact hgrants.symm.trans (h.leases.count row.id).symm

theorem OutboxState.Sound.newest {s : OutboxState π} (h : s.Sound) {worker : String}
    {l : Lease Nat String} (hcur : s.current worker = some l) {row : OutboxRow π}
    (hrow : row ∈ s.rows) (hid : row.id = l.item) (hby : row.lockedBy = some worker) :
    (leasesOf row.id s.log).head? = some l := by
  have hslot := (h.own worker l hcur).2 row hrow hid hby
  apply h.leases.held
  exact (LeaseTable.ofRows_slot h.keys hrow).trans hslot

/-- The lease a claim takes out. -/
def OutboxRow.lease (row : OutboxRow π) (workerId : String) (lockedUntil : Int) :
    Lease Nat String :=
  ⟨row.id,workerId,row.attempts + 1,lockedUntil⟩

private theorem OutboxState.Sound.grant {s : OutboxState π} (h : s.Sound) {old : OutboxRow π}
    (hold : old ∈ s.rows) {now t : Int} (hnow : now ≤ s.clock)
    (hc : old.claimable now = true) (workerId : String) :
    LeaseTable.Move s.leases (leaseTable
      (updateWhere (fun r => r.id == old.id) (·.claim workerId t) s.rows) s.clock
      (.granted (old.lease workerId t) s.clock::s.log)) := by
  have hslot : s.leases.slot old.id = old.slot := LeaseTable.ofRows_slot h.keys hold
  have hgrants : s.leases.grants old.id = old.attempts := LeaseTable.ofRows_grants h.keys hold
  have hf : ∀ r : OutboxRow π, (r.claim workerId t).id = r.id := fun _ => rfl
  rw [leaseTable,LeaseTable.ofRows_update_key h.keys hf hold]
  apply LeaseTable.Move.grant (old.lease workerId t)
  · show old.attempts + 1 = s.leases.grants old.id + 1
    rw [hgrants]
  · show s.leases.slot old.id = .free ∨ ∃ l', s.leases.slot old.id = .held l' ∧ _
    rw [hslot]
    rcases OutboxRow.slot_of_claimable (h.locks old hold) hc with hf | ⟨l,hl,hd⟩
    · exact .inl hf
    · exact .inr ⟨l,hl,Int.lt_of_lt_of_le hd hnow⟩

theorem OutboxState.Sound.claimed {s : OutboxState π} (h : s.Sound) {old : OutboxRow π}
    (hold : old ∈ s.rows) {now t : Int} (hnow : now ≤ s.clock)
    (hc : old.claimable now = true) (workerId : String) :
    OutboxState.Sound
      { rows := updateWhere (fun r => r.id == old.id) (·.claim workerId t) s.rows
        clock := s.clock
        log := .granted (old.lease workerId t) s.clock::s.log
        current := Function.update s.current workerId (some (old.lease workerId t)) } := by
  have hf : ∀ r : OutboxRow π, (r.claim workerId t).id = r.id := fun _ => rfl
  have hmem : ∀ row ∈ updateWhere (fun r => r.id == old.id) (·.claim workerId t) s.rows,
      row = old.claim workerId t ∨ row ∈ s.rows ∧ row.id ≠ old.id := by
    intro row hrow
    obtain ⟨r,hr,rfl⟩ := mem_updateWhere.mp hrow
    by_cases hid : r.id = old.id
    · obtain rfl := eq_of_key_eq h.keys hr hold hid
      exact .inl (by simp)
    · exact .inr (by simp [hid,hr])
  refine ⟨?_,?_,h.leases.move (h.grant hold hnow hc workerId),?_,?_⟩
  · rw [map_updateWhere OutboxRow.id hf]
    exact h.keys
  · intro row hrow
    rcases hmem row hrow with rfl | ⟨hr,_⟩
    · exact OutboxRow.wellLocked_claim _ _ _
    · exact h.locks row hr
  · intro worker l (hcur : Function.update s.current workerId _ worker = some l)
    by_cases hw : worker = workerId
    · subst hw
      rw [Function.update_self] at hcur
      cases hcur
      rw [leasesOf_granted_self]
      exact List.mem_cons_self
    · rw [Function.update_of_ne hw] at hcur
      exact mem_leasesOf_cons (h.taken worker l hcur) _
  · intro worker l (hcur : Function.update s.current workerId _ worker = some l)
    by_cases hw : worker = workerId
    · subst hw
      rw [Function.update_self] at hcur
      cases hcur
      refine ⟨rfl,fun row hrow hid _ => ?_⟩
      rcases hmem row hrow with rfl | ⟨_,hne⟩
      · rfl
      · exact absurd hid hne
    · rw [Function.update_of_ne hw] at hcur
      refine ⟨(h.own worker l hcur).1,fun row hrow hid hby => ?_⟩
      rcases hmem row hrow with rfl | ⟨hr,_⟩
      · exact absurd (Option.some.inj hby).symm hw
      · exact (h.own worker l hcur).2 row hr hid hby

/-- An update that ends a claim: it clears the lock and leaves `processing`. -/
structure Finalises (f : OutboxRow π → OutboxRow π) : Prop where
  id : ∀ r, (f r).id = r.id
  attempts : ∀ r, (f r).attempts = r.attempts
  lockedBy : ∀ r, (f r).lockedBy = none
  lockedUntil : ∀ r, (f r).lockedUntil = none
  status : ∀ r, (f r).status ≠ .processing

theorem finalises_publish (now : Int) :
    Finalises fun r : OutboxRow π => r.publish now := by
  constructor <;> intro r <;> simp [OutboxRow.publish]

theorem finalises_fail : Finalises fun r : OutboxRow π => r.fail := by
  constructor <;> intro r <;> simp [OutboxRow.fail]
  split <;> simp

private theorem Finalises.wellLocked {f : OutboxRow π → OutboxRow π} (hf : Finalises f)
    (r : OutboxRow π) : (f r).WellLocked := by
  simp [OutboxRow.WellLocked,hf.lockedBy,hf.lockedUntil,hf.status]

private theorem Finalises.slot {f : OutboxRow π → OutboxRow π} (hf : Finalises f)
    (r : OutboxRow π) :
    (f r).slot = .free ∨ (f r).slot = .closed := by
  have hs := hf.status r
  cases h : (f r).status with
  | pending => exact .inl (by simp [OutboxRow.slot,h])
  | processing => exact absurd h hs
  | published => exact .inr (by simp [OutboxRow.slot,h])
  | failed => exact .inr (by simp [OutboxRow.slot,h])

/-- A row that is not processing names no worker, so no guarded update reaches it. -/
theorem OutboxRow.WellLocked.of_lockedBy {row : OutboxRow π} (h : row.WellLocked)
    {worker : String} (hby : row.lockedBy = some worker) : row.status = .processing := by
  apply h.1.mpr
  simp [hby]

/-- Nothing to finalise: the row has been claimed by somebody else or released. -/
theorem updateLocked_stale {s : OutboxState π} {id : Nat} {worker : String}
    (f : OutboxRow π → OutboxRow π)
    (h : ∀ row ∈ s.rows, row.id = id → row.lockedBy ≠ some worker) :
    updateLocked s.rows id worker f = s.rows := by
  apply updateWhere_of_forall_not
  intro row hrow
  by_cases hid : row.id = id
  · simp [h row hrow hid]
  · simp [hid]

private theorem leaseTable_updateLocked {s : OutboxState π} (h : s.Sound)
    {f : OutboxRow π → OutboxRow π} (hf : Finalises f) {row : OutboxRow π}
    (hrow : row ∈ s.rows) {worker : String} (hby : row.lockedBy = some worker)
    (log : List (LeaseEntry Nat String)) :
    leaseTable (updateLocked s.rows row.id worker f) s.clock log =
      { s.leases with slot := Function.update s.leases.slot row.id (f row).slot, log := log } := by
  have hgrants : s.leases.grants row.id = (f row).attempts :=
    (LeaseTable.ofRows_grants h.keys hrow).trans (hf.attempts row).symm
  rw [leaseTable,updateLocked,LeaseTable.ofRows_update h.keys hf.id hrow (by simp [hby])]
  have hself := Function.update_eq_self row.id s.leases.grants
  rw [hgrants] at hself
  exact congrArg (fun g => LeaseTable.mk _ g _ _) hself

/-- A finalising update settles the lease its worker holds: in the row if the row still
names the worker, and in the history only if it does not. -/
theorem OutboxState.Sound.settle {s : OutboxState π} (h : s.Sound)
    {f : OutboxRow π → OutboxRow π} (hf : Finalises f) {worker : String}
    {l : Lease Nat String} (hcur : s.current worker = some l) :
    LeaseTable.Move s.leases
      (leaseTable (updateLocked s.rows l.item worker f) s.clock (.settled l::s.log)) := by
  obtain ⟨hholder,hown⟩ := h.own worker l hcur
  by_cases hby : ∃ row ∈ s.rows, row.id = l.item ∧ row.lockedBy = some worker
  · obtain ⟨row,hrow,hid,hlock⟩ := hby
    have hslot := hown row hrow hid hlock
    rw [← hid,leaseTable_updateLocked h hf hrow hlock,hid]
    apply LeaseTable.Move.settle l (f row).slot
    · rw [← hid]
      exact (LeaseTable.ofRows_slot h.keys hrow).trans hslot
    · exact hf.slot row
  · push Not at hby
    rw [updateLocked_stale f hby]
    apply LeaseTable.Move.settleStale l
    intro hheld
    simp only [OutboxState.leases,LeaseTable.ofRows] at hheld
    cases hr : rowAt OutboxRow.id s.rows l.item with
    | none => simp [hr] at hheld
    | some row =>
      rw [hr] at hheld
      obtain ⟨hmem,hid⟩ := rowAt_some hr
      have hlock := (OutboxRow.slot_held hheld).2.1
      rw [hholder] at hlock
      exact hby row hmem hid hlock

theorem OutboxState.Sound.finalised {s : OutboxState π} (h : s.Sound)
    {f : OutboxRow π → OutboxRow π} (hf : Finalises f) {worker : String}
    {l : Lease Nat String} (hcur : s.current worker = some l) :
    OutboxState.Sound { s with
      rows := updateLocked s.rows l.item worker f, log := .settled l::s.log } := by
  have hmem : ∀ row ∈ updateLocked s.rows l.item worker f,
      row ∈ s.rows ∨ row.lockedBy = none ∧ row.WellLocked := by
    intro row hrow
    obtain ⟨r,hr,rfl⟩ := mem_updateWhere.mp hrow
    split
    · exact .inr ⟨hf.lockedBy r,hf.wellLocked r⟩
    · exact .inl hr
  refine ⟨?_,?_,h.leases.move (h.settle hf hcur),fun v k hk => h.taken v k hk,?_⟩
  · rw [updateLocked,map_updateWhere OutboxRow.id hf.id]
    exact h.keys
  · intro row hrow
    rcases hmem row hrow with hr | ⟨_,hw⟩
    · exact h.locks row hr
    · exact hw
  · intro v k hk
    refine ⟨(h.own v k hk).1,fun row hrow hid hby => ?_⟩
    rcases hmem row hrow with hr | ⟨hnone,_⟩
    · exact (h.own v k hk).2 row hr hid hby
    · rw [hnone] at hby
      cases hby

theorem OutboxState.Sound.abandoned {s : OutboxState π} (h : s.Sound)
    {current : String → Option (Lease Nat String)}
    (hcur : ∀ worker l, current worker = some l → s.current worker = some l) :
    OutboxState.Sound { s with current } :=
  ⟨h.keys,h.locks,h.leases,fun worker l hl => h.taken worker l (hcur worker l hl),
    fun worker l hl => h.own worker l (hcur worker l hl)⟩

theorem OutboxState.Sound.ticked_to {s : OutboxState π} (h : s.Sound) {clock : Int}
    (hle : s.clock ≤ clock) : OutboxState.Sound { s with clock } :=
  ⟨h.keys,h.locks,h.leases.move (.tick clock hle),h.taken,h.own⟩

theorem OutboxState.Sound.ticked {s : OutboxState π} (h : s.Sound) (ms : Nat) :
    OutboxState.Sound { s with clock := s.clock + ms } := by
  apply h.ticked_to
  omega

/-- No claim yet: every row is pending or finished, and none has been tried. -/
def OutboxState.Fresh (s : OutboxState π) : Prop :=
  (s.rows.map OutboxRow.id).Nodup ∧ s.log = [] ∧ (∀ worker, s.current worker = none) ∧
    ∀ row ∈ s.rows, row.status = .pending ∧ row.lockedBy = none ∧ row.lockedUntil = none ∧
      row.attempts = 0

theorem OutboxState.sound_of_fresh {s : OutboxState π} (h : s.Fresh) : s.Sound := by
  obtain ⟨hkeys,hlog,hcur,hrows⟩ := h
  refine ⟨hkeys,?_,?_,?_,?_⟩
  · intro row hrow
    obtain ⟨hs,hby,hu,_⟩ := hrows row hrow
    simp [OutboxRow.WellLocked,hs,hby,hu]
  · apply LeaseTable.consistent_of_empty
    show (LeaseTable.ofRows _ _ _ s.rows s.clock s.log).Empty
    rw [hlog]
    apply LeaseTable.empty_ofRows
    intro row hrow
    obtain ⟨hs,_,_,ha⟩ := hrows row hrow
    refine ⟨ha,fun l hl => ?_⟩
    have hp := (OutboxRow.slot_held hl).1
    rw [hs] at hp
    cases hp
  · intro worker l hl
    rw [hcur] at hl
    cases hl
  · intro worker l hl
    rw [hcur] at hl
    cases hl

end SystemsLab.Outbox
