import SystemsLab.Replication.Router

/-! # What `Router.transaction` promises its caller -/

namespace SystemsLab.Replication

variable {ω ρ ε α : Type*} {writes : ω → Bool} {fn : History ω ρ ε → Action ω ε α}

private theorem reported_append_ok (history : History ω ρ ε) (s : ω) (rows : ρ) :
    History.reported writes (history ++ [(s,.ok rows)]) =
      history.reported writes ++ [s].filter writes := by
  cases hs : writes s <;> simp [History.reported,hs,Except.isOk,Except.toBool]

namespace TransactionWorld

variable {w t : TransactionWorld ω ρ ε α} {outcome : Outcome ρ ε}

/-- Once the promise is settled, the writes that reported success are committed, or none is if it
was rejected, and the client is back without an open transaction. -/
def Kept (writes : ω → Bool) (w : TransactionWorld ω ρ ε α) : Prop :=
  match w.phase with
  | .resolved _ =>
    w.session.committed = w.history.reported writes ∧ w.client = .released ∧
      w.session.isOpen = false
  | .rejected _ =>
    w.session.committed = [] ∧ w.client ≠ .checkedOut ∧ w.session.isOpen = false
  | _ => True

/-- `fn` returns although a statement failed and took with it writes that had reported success. -/
def swallows (writes : ω → Bool) (fn : History ω ρ ε → Action ω ε α)
    (w : TransactionWorld ω ρ ε α) : Bool :=
  match w.phase, fn w.history with
  | .running, .return _ => w.session.state = .aborted && !(w.history.reported writes).isEmpty
  | _, _ => false

/-- Of such a return the router only learns if the connection is lost. -/
def Noticed (writes : ω → Bool) (fn : History ω ρ ε → Action ω ε α)
    (w : TransactionWorld ω ρ ε α) (outcome : Outcome ρ ε) : Prop :=
  w.swallows writes fn = true → outcome.isDisconnect = true

instance (writes : ω → Bool) (fn : History ω ρ ε → Action ω ε α)
    (w : TransactionWorld ω ρ ε α) (outcome : Outcome ρ ε) : Decidable (Noticed writes fn w outcome) :=
  inferInstanceAs (Decidable (_ → _))

/-- As long as the transaction is not aborted, what reported success is pending; nothing is
committed before the promise is settled. -/
def Inv (writes : ω → Bool) (w : TransactionWorld ω ρ ε α) : Prop :=
  match w.phase with
  | .connecting => w.session = {} ∧ w.history = [] ∧ w.client = .unconnected
  | .beginning => w.session = {} ∧ w.history = []
  | .running =>
    w.session.committed = [] ∧ w.session.state ≠ .idle ∧
      (w.session.state = .inTransaction → w.session.pending = w.history.reported writes)
  | .rollingBack _ => w.session.committed = []
  | _ => w.Kept writes

def Broken (writes : ω → Bool) (w : TransactionWorld ω ρ ε α) : Prop :=
  ∃ result, w.phase = .resolved result ∧ w.session.committed = [] ∧ w.history.reported writes ≠ []

theorem Inv.kept (h : w.Inv writes) : w.Kept writes := by
  cases hphase : w.phase <;> simp only [Inv,hphase] at h
  case resolved => exact h
  case rejected => exact h
  all_goals simp only [Kept,hphase]

theorem Broken.not_kept (h : w.Broken writes) : ¬ w.Kept writes := by
  obtain ⟨result,hphase,hnone,hsome⟩ := h
  intro hkept
  simp only [Kept,hphase] at hkept
  rw [hnone] at hkept
  exact hsome hkept.1.symm

private theorem Broken.stuck (h : w.Broken writes) : w.step writes fn outcome = none := by
  obtain ⟨result,hphase,_⟩ := h
  simp [step,hphase]

theorem rollback_inv {session : Session ω} {error : ε} (hnone : w.session.committed = [])
    (h : w.session.execute writes .rollback outcome = some session) :
    (w.settle session (.rejected error)).Inv writes := by
  rcases Session.execute_rollback h with rfl | rfl
  · exact ⟨hnone,nofun,rfl⟩
  · exact ⟨hnone,nofun,rfl⟩

theorem connecting_inv (h : w.Inv writes) (hphase : w.phase = .connecting)
    (hstep : w.step writes fn outcome = some t) : t.Inv writes := by
  simp only [Inv,hphase] at h
  obtain ⟨hsession,hhistory,hclient⟩ := h
  simp only [step,hphase] at hstep
  split at hstep
  · cases hstep
    exact ⟨hsession,hhistory⟩
  · cases hstep
    refine ⟨?_,?_,?_⟩ <;> simp [hsession,hclient,Session.isOpen]

theorem beginning_inv (h : w.Inv writes) (hphase : w.phase = .beginning)
    (hstep : w.step writes fn outcome = some t) : t.Inv writes := by
  simp only [Inv,hphase] at h
  obtain ⟨hsession,hhistory⟩ := h
  simp only [step,hphase] at hstep
  obtain ⟨session,hexec,rfl⟩ := Option.map_eq_some_iff.mp hstep
  have hidle : w.session.state = .idle := by rw [hsession]
  rcases Session.execute_begin hidle hexec with ⟨rows,rfl,rfl⟩ | ⟨error,hreply,hsame⟩
  · simp [Inv,Outcome.reply,hsession,hhistory,History.reported]
  · rcases hsame with rfl | rfl <;> simp [hreply,Inv,hsession,Session.disconnect]

theorem statement_inv (h : w.Inv writes) (hphase : w.phase = .running) {s : ω}
    (hfn : fn w.history = .query s) (hstep : w.step writes fn outcome = some t) :
    t.Inv writes := by
  simp only [Inv,hphase] at h
  obtain ⟨hnone,hopen,hpending⟩ := h
  simp only [step,hphase,hfn] at hstep
  obtain ⟨session,hexec,rfl⟩ := Option.map_eq_some_iff.mp hstep
  rcases Session.execute_statement hopen hexec with ⟨rows,rfl,hstate,rfl⟩ | ⟨error,hreply,hsame⟩
  · simp only [Inv,Outcome.reply]
    refine ⟨hnone,hopen,fun _ => ?_⟩
    rw [reported_append_ok,hpending hstate]
  · simp only [Inv]
    rcases hsame with rfl | ⟨rfl,hstate⟩ | rfl
    · exact ⟨hnone,by simp [Session.abort],by simp [Session.abort]⟩
    · refine ⟨hnone,hopen,fun hin => ?_⟩
      rw [hstate] at hin
      cases hin
    · exact ⟨hnone,by simp [Session.disconnect],by simp [Session.disconnect]⟩

/-- `COMMIT` commits the writes that reported success, unless they are gone. -/
theorem return_inv (h : w.Inv writes) (hphase : w.phase = .running) {result : α}
    (hfn : fn w.history = .return result) (hstep : w.step writes fn outcome = some t) :
    (Noticed writes fn w outcome → t.Inv writes) ∧
      (¬ Noticed writes fn w outcome → t.Broken writes) := by
  simp only [Inv,hphase] at h
  obtain ⟨hnone,hopen,hpending⟩ := h
  simp only [step,hphase,hfn] at hstep
  obtain ⟨session,hexec,rfl⟩ := Option.map_eq_some_iff.mp hstep
  rcases Session.execute_commit hopen hexec with ⟨rows,rfl,hdone⟩ | ⟨error,hreply,hsame⟩
  · simp only [Outcome.reply]
    rcases hdone with ⟨hstate,rfl⟩ | ⟨hstate,rfl⟩
    · have hnoticed : Noticed writes fn w (.succeeds rows : Outcome ρ ε) := by
        intro hswallows
        simp [swallows,hphase,hfn,hstate] at hswallows
      refine ⟨fun _ => ⟨?_,rfl,rfl⟩,fun hnot => absurd hnoticed hnot⟩
      simp [settle,Session.commit,hnone,hpending hstate]
    · constructor
      · intro hnoticed
        have hreported : w.history.reported writes = [] := by
          by_contra hsome
          have hswallows : w.swallows writes fn = true := by
            simp [swallows,hphase,hfn,hstate,hsome]
          exact Bool.false_ne_true (hnoticed hswallows)
        refine ⟨?_,rfl,rfl⟩
        simp [settle,Session.rollback,hnone,hreported]
      · intro hnot
        refine ⟨result,rfl,hnone,fun hreported => hnot fun hswallows => ?_⟩
        have hreported' : w.history.reported writes = [] := hreported
        simp [swallows,hphase,hfn,hreported'] at hswallows
  · simp only [hreply]
    rcases hsame with ⟨hstate,rfl⟩ | ⟨hgone,rfl⟩
    · refine ⟨fun _ => hnone,fun hnot => absurd (fun hswallows => ?_) hnot⟩
      simp [swallows,hphase,hfn,hstate] at hswallows
    · exact ⟨fun _ => hnone,fun hnot => absurd (fun _ => hgone) hnot⟩

theorem throw_inv (h : w.Inv writes) (hphase : w.phase = .running) {error : ε}
    (hfn : fn w.history = .throw error) (hstep : w.step writes fn outcome = some t) :
    t.Inv writes := by
  simp only [Inv,hphase] at h
  simp only [step,hphase,hfn] at hstep
  obtain ⟨session,hexec,rfl⟩ := Option.map_eq_some_iff.mp hstep
  exact rollback_inv h.1 hexec

theorem rollingBack_inv (h : w.Inv writes) {error : ε} (hphase : w.phase = .rollingBack error)
    (hstep : w.step writes fn outcome = some t) : t.Inv writes := by
  simp only [Inv,hphase] at h
  simp only [step,hphase] at hstep
  obtain ⟨session,hexec,rfl⟩ := Option.map_eq_some_iff.mp hstep
  exact rollback_inv h hexec

private theorem noticed_of_not_swallows (h : w.swallows writes fn = false) :
    Noticed writes fn w outcome := by
  intro hswallows
  rw [h] at hswallows
  cases hswallows

/-- A step keeps the invariant, or `fn` has swallowed a failure and the router does not notice. -/
theorem step_inv (h : w.Inv writes) (hstep : w.step writes fn outcome = some t) :
    (Noticed writes fn w outcome → t.Inv writes) ∧
      (¬ Noticed writes fn w outcome → t.Broken writes) := by
  have hkeep : t.Inv writes → w.swallows writes fn = false →
      (Noticed writes fn w outcome → t.Inv writes) ∧
        (¬ Noticed writes fn w outcome → t.Broken writes) := by
    intro ht hswallows
    exact ⟨fun _ => ht,fun hnot => absurd (noticed_of_not_swallows hswallows) hnot⟩
  cases hphase : w.phase with
  | connecting => exact hkeep (connecting_inv h hphase hstep) (by simp [swallows,hphase])
  | beginning => exact hkeep (beginning_inv h hphase hstep) (by simp [swallows,hphase])
  | running =>
    cases hfn : fn w.history with
    | query s => exact hkeep (statement_inv h hphase hfn hstep) (by simp [swallows,hfn])
    | «return» result => exact return_inv h hphase hfn hstep
    | throw error => exact hkeep (throw_inv h hphase hfn hstep) (by simp [swallows,hfn])
  | rollingBack error => exact hkeep (rollingBack_inv h hphase hstep) (by simp [swallows,hphase])
  | resolved result => simp [step,hphase] at hstep
  | rejected error => simp [step,hphase] at hstep

/-- Whatever `fn` does and however the server answers, the caller of `transaction` is told the
truth if and only if no `COMMIT` is answered after `fn` swallowed the failure that undid writes
which had reported success. -/
theorem transaction_kept_iff {w : TransactionWorld ω ρ ε α} {outcomes : List (Outcome ρ ε)}
    (hrun : run (step writes fn) {} outcomes = some w) :
    w.Kept writes ↔ Along (step writes fn) (Noticed writes fn) {} outcomes := by
  have hstart : Inv writes ({} : TransactionWorld ω ρ ε α) := ⟨rfl,rfl,rfl⟩
  have hkeep : ∀ (s : TransactionWorld ω ρ ε α) outcome t, s.Inv writes →
      Noticed writes fn s outcome → s.step writes fn outcome = some t → t.Inv writes :=
    fun s outcome t hs hok hstep => (step_inv hs hstep).1 hok
  have hbreak : ∀ (s : TransactionWorld ω ρ ε α) outcome t, s.Inv writes →
      ¬ Noticed writes fn s outcome → s.step writes fn outcome = some t → t.Broken writes :=
    fun s outcome t hs hnot hstep => (step_inv hs hstep).2 hnot
  have hstuck : ∀ (s : TransactionWorld ω ρ ε α) outcome t, s.Broken writes →
      s.step writes fn outcome = some t → t.Broken writes := by
    intro s outcome t hs hstep
    rw [hs.stuck] at hstep
    cases hstep
  exact run_property_iff_along hkeep hbreak hstuck (fun _ => Inv.kept) (fun _ => Broken.not_kept)
    hstart hrun

/-- An order is recorded, then its email address turns out to be taken, which `fn` lets escape. -/
def recordOrder : History String Unit String → Action String String Unit
  | [] => .query "INSERT INTO orders"
  | [(_,.ok _)] => .query "INSERT INTO customers"
  | (_,.error error)::_ => .throw error
  | [_,(_,.error error)] => .throw error
  | _ => .return ()

theorem recordOrder_kept :
    ∃ w : TransactionWorld String Unit String Unit,
      run (step (fun _ => true) recordOrder) {} [.succeeds (),.succeeds (),.succeeds (),
        .fails "duplicate key",.disconnects "terminating connection"] = some w ∧
      w.phase = .rejected "duplicate key" ∧ w.Kept fun _ => true := by
  have halong : Along (step (fun _ => true) recordOrder) (Noticed (fun _ => true) recordOrder) {}
      [.succeeds (),.succeeds (),.succeeds (),.fails "duplicate key",
        .disconnects "terminating connection"] := by
    decide
  exact ⟨_,rfl,rfl,(transaction_kept_iff rfl).mpr halong⟩

/-- The email address is optional, so that `fn` catches the error and returns. -/
def recordOrderAnyway : History String Unit String → Action String String Unit
  | [] => .query "INSERT INTO orders"
  | [_] => .query "INSERT INTO customers"
  | _ => .return ()

/-- The promise resolves, but the order that was recorded is gone. -/
theorem recordOrderAnyway_not_kept :
    ¬ ∀ (fn : History String Unit String → Action String String Unit) outcomes
      (w : TransactionWorld String Unit String Unit),
      run (step (fun _ => true) fn) {} outcomes = some w → w.Kept fun _ => true := by
  intro h
  have hkept := h recordOrderAnyway [.succeeds (),.succeeds (),.succeeds (),
    .fails "duplicate key",.succeeds ()] _ rfl
  have hcommitted : ([] : List String) = ["INSERT INTO orders"] := hkept.1
  cases hcommitted

end TransactionWorld

end SystemsLab.Replication
