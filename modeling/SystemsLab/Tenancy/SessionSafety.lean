import SystemsLab.Tenancy.Session

/-!
# When tenant sessions clean up after themselves

The `finally` of `withTenantSession` works unless `fn` leaves its transaction aborted. If `fn`
leaves a transaction open, the name of the tenant is cleared but can still come back.
-/

namespace SystemsLab.Tenancy

/-- The values that a rollback can restore. -/
def Connection.remembered (c : Connection) : List String :=
  match c.status with
  | .idle => []
  | _ => c.atBegin::c.savepoints.map Prod.snd

def Connection.values (c : Connection) : List String :=
  c.setting::c.remembered

variable {c : Connection} {v : String}

private theorem mem_values : v ∈ c.values ↔ v = c.setting ∨
    c.status ≠ .idle ∧ (v = c.atBegin ∨ ∃ s ∈ c.savepoints, s.2 = v) := by
  unfold Connection.values Connection.remembered
  cases c.status <;> simp

private theorem since_subset (name : String) {s : String × String} (hs : s ∈ c.since name) :
    s ∈ c.savepoints :=
  (List.dropWhile_sublist _).mem hs

private theorem error_values (h : v ∈ c.error.values) : v ∈ c.values := by
  rw [mem_values] at h ⊢
  unfold Connection.error at h
  cases hstatus : c.status <;> simpa [hstatus] using h

private theorem rolledBack_values (hstatus : c.status ≠ .idle) (h : v ∈ c.rolledBack.values) :
    v ∈ c.values := by
  rw [mem_values] at h ⊢
  rcases h with rfl | ⟨hidle,_⟩
  · exact .inr ⟨hstatus,.inl rfl⟩
  · exact absurd rfl hidle

attribute [local simp] Connection.execute

private theorem begin_values (h : v ∈ (c.execute .begin).values) : v ∈ c.values := by
  cases hstatus : c.status with
  | idle =>
    rw [mem_values] at h ⊢
    simp [Connection.execute,hstatus] at h
    exact .inl h
  | active => simpa [Connection.execute,hstatus] using h
  | aborted => simpa [Connection.execute,hstatus] using h

theorem commit_values (h : v ∈ (c.execute .commit).values) : v ∈ c.values := by
  cases hstatus : c.status with
  | idle => simpa [Connection.execute,hstatus] using h
  | active =>
    rw [mem_values] at h ⊢
    simp [Connection.execute,hstatus] at h
    exact .inl h
  | aborted =>
    apply rolledBack_values
    · rw [hstatus]
      decide
    · simpa [Connection.execute,hstatus] using h

theorem rollback_values (h : v ∈ (c.execute .rollback).values) : v ∈ c.values := by
  by_cases hidle : c.status = .idle
  · simpa [Connection.execute,hidle] using h
  · have hexecute : c.execute .rollback = c.rolledBack := by
      simp only [Connection.execute]
    rw [hexecute] at h
    exact rolledBack_values hidle h

private theorem savepoint_values {name : String} (h : v ∈ (c.execute (.savepoint name)).values) :
    v ∈ c.values := by
  by_cases hactive : c.status = .active
  · have hopen : c.status ≠ .idle := by
      rw [hactive]
      decide
    rw [mem_values] at h ⊢
    simp only [Connection.execute,hactive] at h
    rcases h with rfl | ⟨_,rfl | ⟨s,hs,rfl⟩⟩
    · exact .inl rfl
    · exact .inr ⟨hopen,.inl rfl⟩
    · rcases List.mem_cons.mp hs with rfl | hs
      · exact .inl rfl
      · exact .inr ⟨hopen,.inr ⟨s,hs,rfl⟩⟩
  · have hexecute : c.execute (.savepoint name) = c.error := by
      simp only [Connection.execute]
    rw [hexecute] at h
    exact error_values h

private theorem rollbackTo_values {name : String} (h : v ∈ (c.execute (.rollbackTo name)).values) :
    v ∈ c.values := by
  simp only [Connection.execute] at h
  split at h
  · exact h
  · exact error_values h
  · rename_i name' setting rest hsince hidle
    rw [mem_values] at h ⊢
    right
    refine ⟨hidle,?_⟩
    rcases h with hv | ⟨_,rfl | ⟨s,hs,rfl⟩⟩
    · have hhead : (name',setting) ∈ c.since name := by
        rw [hsince]
        exact List.mem_cons_self
      exact .inr ⟨_,since_subset name hhead,hv.symm⟩
    · exact .inl rfl
    · exact .inr ⟨s,since_subset name hs,rfl⟩

private theorem release_values {name : String} (h : v ∈ (c.execute (.release name)).values) :
    v ∈ c.values := by
  simp only [Connection.execute] at h
  split at h
  · rename_i head rest hactive hsince
    rw [mem_values] at h ⊢
    rcases h with rfl | ⟨hidle,rfl | ⟨s,hs,rfl⟩⟩
    · exact .inl rfl
    · exact .inr ⟨hidle,.inl rfl⟩
    · refine .inr ⟨hidle,.inr ⟨s,since_subset name ?_,rfl⟩⟩
      rw [hsince]
      exact List.mem_cons_of_mem _ hs
  · exact error_values h

/-- No statement makes up a value. -/
theorem execute_values (s : Statement) (h : v ∈ (c.execute s).values) : v ∈ c.values := by
  cases s with
  | begin => exact begin_values h
  | commit => exact commit_values h
  | rollback => exact rollback_values h
  | savepoint name => exact savepoint_values h
  | rollbackTo name => exact rollbackTo_values h
  | release name => exact release_values h
  | other fails =>
    cases fails
    · exact h
    · exact error_values h

def Connection.executeAll (c : Connection) (statements : List Statement) : Connection :=
  statements.foldl Connection.execute c

private theorem executeAll_values (statements : List Statement) :
    ∀ c : Connection, ∀ v ∈ (c.executeAll statements).values, v ∈ c.values := by
  induction statements with
  | nil => exact fun _ _ hv => hv
  | cons s statements ih =>
    intro c v hv
    exact execute_values s (ih (c.execute s) v hv)

/-- A savepoint can be gone back to, after the newer ones have been released. -/
theorem exists_restoring_savepoint {s : String × String} (hactive : c.status = .active)
    (hs : s ∈ c.savepoints) : ∃ statements, (c.executeAll statements).setting = s.2 := by
  obtain ⟨newer,older,hsavepoints⟩ := List.append_of_mem hs
  induction newer generalizing c with
  | nil =>
    refine ⟨[.rollbackTo s.1],?_⟩
    have hsince : c.since s.1 = s::older := by
      unfold Connection.since
      rw [hsavepoints]
      simp
    show (c.execute (.rollbackTo s.1)).setting = s.2
    simp only [Connection.execute,hactive,hsince]
  | cons first newer ih =>
    have hsince : c.since first.1 = first::(newer ++ s::older) := by
      unfold Connection.since
      rw [hsavepoints]
      simp
    have hrelease : c.execute (.release first.1) = { c with savepoints := newer ++ s::older } := by
      simp only [Connection.execute,hactive,hsince]
    obtain ⟨statements,hstatements⟩ := ih (c := c.execute (.release first.1))
      (by rw [hrelease]; exact hactive) (by rw [hrelease]; simp) (by rw [hrelease])
    exact ⟨.release first.1::statements,hstatements⟩

private theorem exists_restoring (hstatus : c.status ≠ .aborted) (hv : v ∈ c.values) :
    ∃ statements, (c.executeAll statements).setting = v := by
  rcases mem_values.mp hv with rfl | ⟨hopen,hremembered⟩
  · exact ⟨[],rfl⟩
  · have hactive : c.status = .active := by
      cases h : c.status with
      | idle => exact absurd h hopen
      | active => rfl
      | aborted => exact absurd h hstatus
    rcases hremembered with rfl | ⟨s,hs,rfl⟩
    · refine ⟨[.rollback],?_⟩
      show (c.execute .rollback).setting = c.atBegin
      simp only [Connection.execute,hactive,Connection.rolledBack]
    · exact exists_restoring_savepoint hactive hs

/-- Nobody sees a tenant before setting one, whatever is sent first. -/
def Connection.StaysEmpty (c : Connection) : Prop :=
  ∀ statements, (c.executeAll statements).setting = ""

theorem staysEmpty_iff (hstatus : c.status ≠ .aborted) :
    c.StaysEmpty ↔ ∀ v ∈ c.values, v = "" := by
  constructor
  · intro h v hv
    obtain ⟨statements,rfl⟩ := exists_restoring hstatus hv
    exact h statements
  · intro h statements
    exact h _ (executeAll_values statements c _ List.mem_cons_self)

/-- Every `fn` starts as its own tenant, a settled call has released its connection once, and
`hidden` is true of every connection from its release until the next tenant is set. -/
structure PoolWorld.Safe (hidden : Connection → Prop) (w : PoolWorld) : Prop where
  started : ∀ n call c, w.call n = some call → call.phase = .started c →
    (w.connection c).setting = tenantSetting call.tenantId
  released : ∀ n call c, w.call n = some call → call.phase = .settled c → call.released = 1
  pooled : ∀ c, w.holder c = none → hidden (w.connection c)
  connected : ∀ n call c, w.call n = some call → call.phase = .connected c →
    hidden (w.connection c)

def KeepsSafe (hidden : Connection → Prop) (w : PoolWorld) (e : SessionEvent) : Prop :=
  ∀ w', sessionStep w e = some w' → w'.Safe hidden

def SessionPhase.toClear : SessionPhase → Option Nat
  | .clearing c => some c
  | _ => none

/-- When the `finally` runs, `fine` is true of the connection. -/
def EndsWith (fine : Connection → Prop) (w : PoolWorld) : SessionEvent → Prop
  | .clear n => ∀ call ∈ w.call n, ∀ c ∈ call.phase.toClear, fine (w.connection c)
  | _ => True

instance (fine : Connection → Prop) [DecidablePred fine] :
    ∀ (w : PoolWorld) e, Decidable (EndsWith fine w e)
  | w, .clear n => inferInstanceAs
      (Decidable (∀ call ∈ w.call n, ∀ c ∈ call.phase.toClear, fine (w.connection c)))
  | _, .call _ _ _ => isTrue trivial
  | _, .connect _ _ => isTrue trivial
  | _, .refuse _ => isTrue trivial
  | _, .setTenant _ => isTrue trivial
  | _, .statement _ _ => isTrue trivial
  | _, .settle _ => isTrue trivial

/-- The connection is out of its pool, and the call has it. -/
def SessionCall.Holds (w : PoolWorld) (n : Nat) (call : SessionCall) (c : Nat) : Prop :=
  call.released = 0 ∧ w.holder c = some n

def SessionCall.Fits (hidden : Connection → Prop) (w : PoolWorld) (n : Nat) (call : SessionCall) :
    Prop :=
  match call.phase with
  | .connecting => call.released = 0
  | .connected c => call.Holds w n c ∧ hidden (w.connection c) ∧
      (w.connection c).status ≠ .aborted
  | .started c => call.Holds w n c ∧ (w.connection c).setting = tenantSetting call.tenantId
  | .running c => call.Holds w n c
  | .clearing c => call.Holds w n c
  | .settled _ => call.released = 1
  | .refused => call.released = 0

structure PoolWorld.Sound (hidden : Connection → Prop) (w : PoolWorld) : Prop where
  pooled : ∀ c, w.holder c = none → hidden (w.connection c) ∧ (w.connection c).status ≠ .aborted
  fits : ∀ n call, w.call n = some call → call.Fits hidden w n

variable {hidden : Connection → Prop} {w w' : PoolWorld} {n : Nat} {call : SessionCall}

theorem PoolWorld.Sound.safe (h : w.Sound hidden) : w.Safe hidden := by
  constructor
  · intro n call c hn hphase
    have hfits := h.fits n call hn
    rw [SessionCall.Fits,hphase] at hfits
    exact hfits.2
  · intro n call c hn hphase
    have hfits := h.fits n call hn
    rw [SessionCall.Fits,hphase] at hfits
    exact hfits
  · exact fun c hc => (h.pooled c hc).1
  · intro n call c hn hphase
    have hfits := h.fits n call hn
    rw [SessionCall.Fits,hphase] at hfits
    exact hfits.2.1

theorem SessionCall.Fits.keep (h : call.Fits hidden w n)
    (hkeep : ∀ c, w.holder c = some n → w'.holder c = some n ∧ w'.connection c = w.connection c) :
    call.Fits hidden w' n := by
  have hholds : ∀ c, call.Holds w n c → call.Holds w' n c :=
    fun c hc => ⟨hc.1,(hkeep c hc.2).1⟩
  unfold SessionCall.Fits at h ⊢
  split at h
  · exact h
  · refine ⟨hholds _ h.1,?_⟩
    rw [(hkeep _ h.1.2).2]
    exact h.2
  · refine ⟨hholds _ h.1,?_⟩
    rw [(hkeep _ h.1.2).2]
    exact h.2
  · exact hholds _ h
  · exact hholds _ h
  · exact h
  · exact h

/-- One call goes on: it touches its own connection at most, or takes one from the pool. -/
theorem PoolWorld.Sound.update (h : w.Sound hidden) {next : SessionCall}
    (hcall : w'.call = Function.update w.call n (some next))
    (hothers : ∀ c m, m ≠ n → w.holder c = some m →
      w'.holder c = some m ∧ w'.connection c = w.connection c)
    (hpooled : ∀ c, w'.holder c = none →
      hidden (w'.connection c) ∧ (w'.connection c).status ≠ .aborted)
    (hfits : next.Fits hidden w' n) : w'.Sound hidden := by
  refine ⟨hpooled,?_⟩
  intro m call hm
  rw [hcall] at hm
  by_cases hmn : m = n
  · subst hmn
    rw [Function.update_self] at hm
    cases hm
    exact hfits
  · rw [Function.update_of_ne hmn] at hm
    exact (h.fits m call hm).keep fun c hc => hothers c m hmn hc

theorem PoolWorld.Sound.move (h : w.Sound hidden) {next : SessionCall}
    (hfits : next.Fits hidden (w.put n next) n) : (w.put n next).Sound hidden :=
  h.update rfl (fun _ _ _ hc => ⟨hc,rfl⟩) h.pooled hfits

private theorem PoolWorld.Sound.putConnection (h : w.Sound hidden) {next : SessionCall} {c : Nat}
    {connection : Connection} (hc : w.holder c = some n)
    (hfits : next.Fits hidden ((w.put n next).putConnection c connection) n) :
    ((w.put n next).putConnection c connection).Sound hidden := by
  apply h.update rfl _ _ hfits
  · intro d m hm hd
    have hne : d ≠ c := by
      rintro rfl
      rw [hc] at hd
      exact hm (Option.some.inj hd).symm
    exact ⟨hd,Function.update_of_ne hne _ _⟩
  · intro d hd
    have hne : d ≠ c := by
      rintro rfl
      exact Option.some_ne_none _ (hc.symm.trans hd)
    have hsame : ((w.put n next).putConnection c connection).connection d = w.connection d :=
      Function.update_of_ne hne _ _
    rw [hsame]
    exact h.pooled d hd

private theorem setConfig_eq (value : String) (h : c.status ≠ .aborted) :
    c.setConfig value = some { c with setting := value } := by
  unfold Connection.setConfig
  cases hstatus : c.status with
  | aborted => exact absurd hstatus h
  | idle => rfl
  | active => rfl

private theorem PoolWorld.Sound.connect (h : w.Sound hidden) {c : Nat} (hfree : w.holder c = none)
    (hphase : call.phase = .connecting) (hfits : call.Fits hidden w n) :
    PoolWorld.Sound hidden { w.move n call (.connected c) with
      holder := Function.update w.holder c (some n) } := by
  have hself : Function.update w.holder c (some n) c = some n := Function.update_self ..
  rw [SessionCall.Fits,hphase] at hfits
  apply h.update rfl
  · intro d m _ hd
    have hne : d ≠ c := by
      rintro rfl
      rw [hfree] at hd
      cases hd
    exact ⟨(Function.update_of_ne hne _ _).trans hd,rfl⟩
  · intro d hd
    apply h.pooled d
    by_cases hdc : d = c
    · rw [hdc]
      exact hfree
    · exact (Function.update_of_ne hdc (some n) w.holder).symm.trans hd
  · obtain ⟨hhidden,hstatus⟩ := h.pooled c hfree
    exact ⟨⟨hfits,hself⟩,hhidden,hstatus⟩

private theorem PoolWorld.Sound.release (h : w.Sound hidden) {c : Nat}
    (hfits : call.Fits hidden w n) (hphase : call.phase = .clearing c)
    (hend : hidden { w.connection c with setting := "" })
    (hstatus : (w.connection c).status ≠ .aborted) :
    { (w.put n { call with phase := .settled c, released := call.released + 1 }).putConnection c
      { w.connection c with setting := "" } with
        holder := Function.update w.holder c none }.Sound hidden := by
  rw [SessionCall.Fits,hphase] at hfits
  obtain ⟨hreleased,hc⟩ := hfits
  apply h.update rfl
  · intro d m hm hd
    have hne : d ≠ c := by
      rintro rfl
      rw [hc] at hd
      exact hm (Option.some.inj hd).symm
    exact ⟨(Function.update_of_ne hne _ _).trans hd,Function.update_of_ne hne _ _⟩
  · intro d hd
    by_cases hdc : d = c
    · subst hdc
      have hself : (Function.update w.connection d { w.connection d with setting := "" }) d =
        { w.connection d with setting := "" } := Function.update_self ..
      show hidden ((Function.update w.connection d _) d) ∧
        ((Function.update w.connection d _) d).status ≠ .aborted
      rw [hself]
      exact ⟨hend,hstatus⟩
    · have hfree : w.holder d = none := (Function.update_of_ne hdc none w.holder).symm.trans hd
      have hsame : (Function.update w.connection c { w.connection c with setting := "" }) d =
        w.connection d := Function.update_of_ne hdc _ _
      show hidden ((Function.update w.connection c _) d) ∧
        ((Function.update w.connection c _) d).status ≠ .aborted
      rw [hsame]
      exact h.pooled d hfree
  · show call.released + 1 = 1
    rw [hreleased]

private theorem PoolWorld.Sound.callMoves (h : w.Sound hidden) {fine : Connection → Prop}
    (hfine : ∀ c, fine c → c.status ≠ .aborted ∧ hidden { c with setting := "" })
    (hn : w.call n = some call) {e : SessionEvent} (he : e.caller = n) (hok : EndsWith fine w e)
    (hstep : callStep w n call e = some w') : w'.Sound hidden := by
  have hfits := h.fits n call hn
  obtain ⟨role,tenantId,phase,released⟩ := call
  cases e with
  | call m role tenantId => cases hstep
  | connect m c =>
    cases phase with
    | connecting =>
      simp only [callStep] at hstep
      split at hstep
      · rename_i hfree
        cases hstep
        exact h.connect hfree.1 rfl hfits
      · cases hstep
    | _ => cases hstep
  | refuse m =>
    cases phase with
    | connecting =>
      cases hstep
      exact h.move hfits
    | _ => cases hstep
  | setTenant m =>
    cases phase with
    | connected c =>
      obtain ⟨hholds,_,hstatus⟩ := hfits
      simp only [callStep,setConfig_eq _ hstatus] at hstep
      cases hstep
      apply h.putConnection hholds.2
      refine ⟨hholds,?_⟩
      let connection := { w.connection c with setting := tenantSetting tenantId }
      have hself : (Function.update w.connection c connection) c = connection :=
        Function.update_self ..
      show ((Function.update w.connection c connection) c).setting = _
      rw [hself]
    | _ => cases hstep
  | statement m s =>
    cases phase with
    | started c =>
      cases hstep
      exact h.putConnection hfits.1.2 hfits.1
    | running c =>
      cases hstep
      exact h.putConnection hfits.2 hfits
    | _ => cases hstep
  | settle m =>
    cases phase with
    | started c =>
      cases hstep
      exact h.move hfits.1
    | running c =>
      cases hstep
      exact h.move hfits
    | _ => cases hstep
  | clear m =>
    cases phase with
    | clearing c =>
      cases he
      obtain ⟨hstatus,hend⟩ := hfine _ (hok _ hn c rfl)
      simp only [callStep,setConfig_eq _ hstatus] at hstep
      cases hstep
      exact h.release hfits rfl hend hstatus
    | _ => cases hstep

theorem PoolWorld.Sound.step (h : w.Sound hidden) {fine : Connection → Prop}
    (hfine : ∀ c, fine c → c.status ≠ .aborted ∧ hidden { c with setting := "" })
    {e : SessionEvent} (hok : EndsWith fine w e) (hstep : sessionStep w e = some w') :
    w'.Sound hidden := by
  unfold sessionStep at hstep
  split at hstep
  · cases hstep
    exact h.move rfl
  · cases hstep
  · rename_i call hn
    exact h.callMoves hfine hn rfl hok hstep

/-- A `finally` that does not find the connection fine leaves it for good, or gives it back with a
tenant. -/
theorem PoolWorld.Sound.breaks (h : w.Sound hidden) {fine : Connection → Prop}
    (hfine : ∀ c, c.status ≠ .aborted → hidden { c with setting := "" } → fine c)
    {e : SessionEvent} (hbad : ¬ EndsWith fine w e) (hstep : sessionStep w e = some w') :
    ¬ w'.Safe hidden := by
  cases e with
  | clear n =>
    simp only [EndsWith,Classical.not_forall] at hbad
    obtain ⟨call,hn,c,hclear,hbad⟩ := hbad
    have hn : w.call n = some call := hn
    have hfits := h.fits n call hn
    obtain ⟨role,tenantId,phase,released⟩ := call
    cases phase with
    | clearing d =>
      cases hclear
      have hstep : callStep w n ⟨role,tenantId,.clearing c,released⟩ (.clear n) = some w' := by
        simpa only [sessionStep,SessionEvent.caller,hn] using hstep
      intro hsafe
      by_cases hstatus : (w.connection c).status = .aborted
      · have hset : (w.connection c).setConfig "" = none := by
          unfold Connection.setConfig
          rw [hstatus]
        simp only [callStep,hset] at hstep
        cases hstep
        have hone := hsafe.released n _ c (Function.update_self ..) rfl
        rw [SessionCall.Fits] at hfits
        have hzero : released = 0 := hfits.1
        rw [hzero] at hone
        cases hone
      · simp only [callStep,setConfig_eq _ hstatus] at hstep
        cases hstep
        have hhidden := hsafe.pooled c (Function.update_self ..)
        have hself : (Function.update w.connection c { w.connection c with setting := "" }) c =
          { w.connection c with setting := "" } := Function.update_self ..
        apply hbad
        apply hfine _ hstatus
        rw [← hself]
        exact hhidden
    | _ => cases hclear
  | _ => exact absurd trivial hbad

theorem PoolWorld.Fresh.sound (h : w.Fresh) (hhidden : hidden {}) : w.Sound hidden := by
  obtain ⟨hconnection,_,hcall⟩ := h
  constructor
  · intro c _
    rw [hconnection]
    exact ⟨hhidden,by decide⟩
  · intro n call hn
    rw [hcall] at hn
    cases hn

theorem keepsSafe_iff {w₀ : PoolWorld} (h : w₀.Fresh) (hhidden : hidden {})
    {fine : Connection → Prop}
    (hfine : ∀ c, fine c ↔ c.status ≠ .aborted ∧ hidden { c with setting := "" })
    {es : List SessionEvent} (hrun : run sessionStep w₀ es = some w) :
    Along sessionStep (KeepsSafe hidden) w₀ es ↔ Along sessionStep (EndsWith fine) w₀ es := by
  apply along_iff (PoolWorld.Sound hidden)
  · intro s e t hs hok hstep
    exact hs.step (fun c => (hfine c).mp) hok hstep
  · intro s e t hs hstep
    constructor
    · intro hkeeps
      by_contra hbad
      exact hs.breaks (fun c hstatus hend => (hfine c).mpr ⟨hstatus,hend⟩) hbad hstep
        (hkeeps t hstep)
    · intro hok t' hstep'
      exact (hs.step (fun c => (hfine c).mp) hok hstep').safe
  · exact h.sound hhidden
  · exact hrun

/-- The connection shows no tenant. -/
def Connection.Empty (c : Connection) : Prop := c.setting = ""

/-- `fn` has not left its transaction aborted. -/
def Connection.Usable (c : Connection) : Prop := c.status ≠ .aborted

/-- Nor has it left one open that would bring a tenant back. -/
def Connection.Forgotten (c : Connection) : Prop :=
  c.status ≠ .aborted ∧ ∀ v ∈ c.remembered, v = ""

instance (c : Connection) : Decidable c.Usable :=
  inferInstanceAs (Decidable (c.status ≠ .aborted))

instance (c : Connection) : Decidable c.Forgotten :=
  inferInstanceAs (Decidable (c.status ≠ .aborted ∧ ∀ v ∈ c.remembered, v = ""))

theorem forgotten_iff (c : Connection) : c.Forgotten ↔
    c.status ≠ .aborted ∧ Connection.StaysEmpty { c with setting := "" } := by
  apply and_congr_right
  intro hstatus
  rw [staysEmpty_iff (c := { c with setting := "" }) hstatus]
  constructor
  · intro h v hv
    rcases List.mem_cons.mp hv with rfl | hv
    · rfl
    · exact h v hv
  · exact fun h v hv => h v (List.mem_cons_of_mem _ hv)

/-- A run is safe throughout, if and only if no `fn` leaves its transaction aborted. And it is safe
for borrowers that send anything before they set a tenant, if and only if moreover no `fn` leaves
a transaction open that would bring a tenant back. -/
theorem tenantSessions_safe_iff {w₀ w : PoolWorld} (h : w₀.Fresh) {es : List SessionEvent}
    (hrun : run sessionStep w₀ es = some w) :
    (Along sessionStep (KeepsSafe Connection.Empty) w₀ es ↔
        Along sessionStep (EndsWith Connection.Usable) w₀ es) ∧
      (Along sessionStep (KeepsSafe Connection.StaysEmpty) w₀ es ↔
        Along sessionStep (EndsWith Connection.Forgotten) w₀ es) := by
  have hfresh : Connection.StaysEmpty {} := by
    rw [staysEmpty_iff (by decide)]
    decide
  have hempty : Connection.Empty {} := rfl
  have husable : ∀ c : Connection, c.Usable ↔
      c.status ≠ .aborted ∧ Connection.Empty { c with setting := "" } :=
    fun _ => ⟨fun hstatus => ⟨hstatus,rfl⟩,And.left⟩
  constructor
  · exact keepsSafe_iff h hempty husable hrun
  · exact keepsSafe_iff h hfresh forgotten_iff hrun

def onePool : PoolWorld := { role := fun _ => .app }

/-- Tenant 1 commits, tenant 2 leaves a transaction open, and a call without a tenant throws in
it. -/
def tidySessions : List SessionEvent :=
  [.call 0 .app (some 1),.connect 0 0,.setTenant 0,.statement 0 .begin,.statement 0 .commit,
    .settle 0,.clear 0,.call 1 .app (some 2),.connect 1 0,.setTenant 1,.statement 1 .begin,
    .settle 1,.clear 1,.call 2 .app none,.connect 2 0,.setTenant 2,.statement 2 (.other true),
    .statement 2 .rollback,.settle 2,.clear 2]

theorem tidySessions_safe : Along sessionStep (KeepsSafe Connection.Empty) onePool tidySessions := by
  have hrun : (run sessionStep onePool tidySessions).isSome = true := by decide +kernel
  obtain ⟨w,hw⟩ := Option.isSome_iff_exists.mp hrun
  exact (tenantSessions_safe_iff ⟨fun _ => rfl,fun _ => rfl,fun _ => rfl⟩ hw).1.mpr
    (by decide +kernel)

/-- A statement fails in a transaction that `fn` has begun, and `fn` throws. -/
def failedStatement : List SessionEvent :=
  [.call 0 .app (some 1),.connect 0 0,.setTenant 0,.statement 0 .begin,.statement 0 (.other true),
    .settle 0,.clear 0]

theorem failedStatement_not_safe : ¬ ∀ (w₀ w : PoolWorld) (es : List SessionEvent), w₀.Fresh →
    run sessionStep w₀ es = some w → Along sessionStep (KeepsSafe Connection.Empty) w₀ es := by
  intro hclaim
  have hrun : (run sessionStep onePool failedStatement).isSome = true := by decide +kernel
  obtain ⟨w,hw⟩ := Option.isSome_iff_exists.mp hrun
  have hsafe := hclaim onePool w failedStatement ⟨fun _ => rfl,fun _ => rfl,fun _ => rfl⟩ hw
  have hlast := ((((((hsafe.2 _ rfl).2 _ rfl).2 _ rfl).2 _ rfl).2 _ rfl).2 _ rfl).1 _ rfl
  have hone := hlast.released 0 _ 0 rfl rfl
  cases hone

end SystemsLab.Tenancy
