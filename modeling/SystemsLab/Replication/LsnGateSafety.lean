import SystemsLab.Replication.LsnGate

/-!
# A gated read sees the write it waited for

A commit record ends no later than the position that is sampled after its `UPDATE` has returned,
and a replica that has replayed up to that position has replayed the record. Positions order the
prefixes of the WAL, and both the WAL and the replayed prefix only grow, so neither fact is lost
to anything that runs in between.
-/

namespace SystemsLab.Replication

variable {w w' : LsnWorld} {write : Write} {id : Nat}

structure Grows (w w' : LsnWorld) : Prop where
  walStart : w'.walStart = w.walStart
  wal : ∃ more, w'.wal = w.wal ++ more
  written : w.written ≤ w'.written
  replayed : w.replayed ≤ w'.replayed

/-- Records are written out after they are inserted, and replayed after they are written out. -/
def LsnWorld.Ordered (w : LsnWorld) : Prop := w.replayed ≤ w.written ∧ w.written ≤ w.wal.length

private theorem Grows.position {n : Nat} (hg : Grows w w') (hn : n ≤ w.wal.length) :
    w'.position n = w.position n := by
  obtain ⟨more,hmore⟩ := hg.wal
  unfold LsnWorld.position
  rw [hg.walStart,hmore,logPosition_append more hn]

private theorem Grows.found {α : Type*} {f : WalRecord → Option α} {i : Nat} {a : α}
    (hg : Grows w w')
    (h : (w.wal[i]?).bind f = some a) : (w'.wal[i]?).bind f = some a := by
  obtain ⟨record,hrecord,-⟩ := Option.bind_eq_some_iff.mp h
  obtain ⟨more,hmore⟩ := hg.wal
  have hi : i < w.wal.length := (List.getElem?_eq_some_iff.mp hrecord).1
  rw [hmore,List.getElem?_append_left hi]
  exact h

private theorem Grows.replayedPosition (hg : Grows w w') (hw : w.Ordered) (hw' : w'.Ordered) :
    w.position w.replayed ≤ w'.position w'.replayed := by
  rw [← hg.position (hw.1.trans hw.2)]
  exact logPosition_mono hg.replayed (hw'.1.trans hw'.2)

private theorem Grows.ownOrLater {observed : Option String} (hg : Grows w w')
    (h : w.OwnOrLater write observed) : w'.OwnOrLater write observed := by
  obtain ⟨j,hj,hown,himage⟩ := h
  exact ⟨j,hj,hown,hg.found himage⟩

private theorem Grows.readsGated {newer older : GateNotice} (hg : Grows w w')
    (h : w.ReadsGated newer older) : w'.ReadsGated newer older := by
  intro write wait replicaLsn row observed holder hnewer hrow
  exact hg.ownOrLater (h write wait replicaLsn row observed holder hnewer hrow)

/-- The WAL has the write at its place. -/
def LsnWorld.Inserted (w : LsnWorld) (write : Write) : Prop :=
  (w.wal[write.record]?).bind (LogRecord.image · write.row) = some (some write.displayName)

/-- The write's commit record ends at `lsn` or before. -/
def LsnWorld.Covers (w : LsnWorld) (lsn : Nat) (write : Write) : Prop :=
  w.Inserted write ∧ w.position (write.record+1) ≤ lsn

def LsnWorld.ClientSound (w : LsnWorld) (client : GateClient) : Prop :=
  match client.phase with
  | .updating => ∀ write ∈ client.write, w.Inserted write
  | .updated => ∀ write ∈ client.write, w.Inserted write ∧ write.record < w.written
  | .sampled lsn => ∀ write ∈ client.write, w.Covers lsn write
  | .checking wait | .querying wait | .sleeping wait =>
    ∀ write ∈ client.write, w.Covers wait.targetLsn write
  | .answered wait row => (∀ write ∈ client.write, w.Covers wait.targetLsn write) ∧
      (row.caughtUp = some true → wait.targetLsn ≤ w.position w.replayed)
  | .idle | .returned _ | .threw _ => True

def LsnWorld.NoticeSound (w : LsnWorld) : GateNotice → Prop
  | .returned write wait replicaLsn => wait.targetLsn ≤ replicaLsn ∧
      replicaLsn ≤ w.position w.replayed ∧ ∀ own ∈ write, w.Covers wait.targetLsn own
  | .timedOut wait now => wait.timeoutMs ≤ now - wait.start
  | .read _ _ => True

private theorem LsnWorld.Inserted.lt (h : w.Inserted write) : write.record < w.wal.length := by
  obtain ⟨record,hrecord,-⟩ := Option.bind_eq_some_iff.mp h
  exact (List.getElem?_eq_some_iff.mp hrecord).1

private theorem Grows.covers {lsn : Nat} (hg : Grows w w') (h : w.Covers lsn write) :
    w'.Covers lsn write := by
  refine ⟨hg.found h.1,?_⟩
  rw [hg.position h.1.lt]
  exact h.2

private theorem Grows.clientSound {client : GateClient} (hg : Grows w w') (hw : w.Ordered)
    (hw' : w'.Ordered) (h : w.ClientSound client) : w'.ClientSound client := by
  unfold LsnWorld.ClientSound at h ⊢
  cases hphase : client.phase with
  | idle => trivial
  | updating =>
    rw [hphase] at h
    exact fun write hwrite => hg.found (h write hwrite)
  | updated =>
    rw [hphase] at h
    intro write hwrite
    exact ⟨hg.found (h write hwrite).1,(h write hwrite).2.trans_le hg.written⟩
  | sampled | checking | querying | sleeping =>
    rw [hphase] at h
    exact fun write hwrite => hg.covers (h write hwrite)
  | answered =>
    rw [hphase] at h
    refine ⟨fun write hwrite => hg.covers (h.1 write hwrite),fun hcaught => ?_⟩
    exact (h.2 hcaught).trans (hg.replayedPosition hw hw')
  | returned => trivial
  | threw => trivial

private theorem Grows.noticeSound {notice : GateNotice} (hg : Grows w w') (hw : w.Ordered)
    (hw' : w'.Ordered) (h : w.NoticeSound notice) : w'.NoticeSound notice := by
  cases notice with
  | returned write wait replicaLsn =>
    obtain ⟨htarget,hreplayed,hcovers⟩ := h
    refine ⟨htarget,hreplayed.trans (hg.replayedPosition hw hw'),fun own hown => ?_⟩
    exact hg.covers (hcovers own hown)
  | timedOut => exact h
  | read => trivial

/-- The replica has replayed every write that a returned wait was covering. -/
theorem ownOrLater_of_returned {wait : LsnWait} {replicaLsn : Nat} (hw : w.Ordered)
    (h : w.NoticeSound (.returned (some write) wait replicaLsn)) :
    w.OwnOrLater write (w.onReplica write.row) := by
  obtain ⟨htarget,hreplayed,hcovers⟩ := h
  obtain ⟨hinserted,hends⟩ := hcovers write rfl
  have hreached : w.position (write.record+1) ≤ w.position w.replayed :=
    hends.trans (htarget.trans hreplayed)
  have hin : write.record < w.replayed := le_of_logPosition_le hinserted.lt hreached
  obtain ⟨j,hj,-,himage⟩ := replayLog_of_write w.profiles (hw.1.trans hw.2) hin
    hinserted
  refine ⟨j,hj,?_,himage⟩
  intro hown
  rw [hown,hinserted] at himage
  exact (Option.some.inj himage).symm

structure GateConsistent (w : LsnWorld) : Prop where
  ordered : w.Ordered
  clients : ∀ id, w.ClientSound (w.client id)
  notices : ∀ notice ∈ w.notices, w.NoticeSound notice
  reads : w.notices.Pairwise w.ReadsGated

private theorem gateConsistent_initial (h : w.Initial) : GateConsistent w := by
  obtain ⟨hreplayed,hwritten,hclient,hnotices⟩ := h
  refine ⟨⟨hreplayed,hwritten⟩,?_,?_,?_⟩
  · intro id
    rw [hclient]
    trivial
  · intro notice hnotice
    rw [hnotices] at hnotice
    cases hnotice
  · rw [hnotices]
    exact List.Pairwise.nil

namespace GateConsistent

private theorem client {phase : GatePhase} (h : GateConsistent w)
    (hphase : (w.client id).phase = phase) : w.ClientSound { w.client id with phase } :=
  hphase ▸ h.clients id

private theorem grow (h : GateConsistent w) (hg : Grows w w') (hw' : w'.Ordered)
    (hclient : w'.client = w.client) (hnotices : w'.notices = w.notices) : GateConsistent w' := by
  refine ⟨hw',?_,?_,?_⟩
  · intro id
    rw [hclient]
    exact hg.clientSound h.ordered hw' (h.clients id)
  · intro notice hnotice
    rw [hnotices] at hnotice
    exact hg.noticeSound h.ordered hw' (h.notices notice hnotice)
  · rw [hnotices]
    exact h.reads.imp hg.readsGated

private theorem put {client : GateClient} (h : GateConsistent w) (hclient : w.ClientSound client) :
    GateConsistent (w.put id client) := by
  refine ⟨h.ordered,?_,h.notices,h.reads⟩
  intro other
  show w.ClientSound (Function.update w.client id client other)
  by_cases hother : other = id
  · rw [hother,Function.update_self]
    exact hclient
  · rw [Function.update_of_ne hother]
    exact h.clients other

private theorem note {notice : GateNotice} (h : GateConsistent w) (hnotice : w.NoticeSound notice)
    (hread : ∀ row observed, notice = .read row observed → observed = w.onReplica row) :
    GateConsistent (w.note notice) := by
  refine ⟨h.ordered,h.clients,?_,?_⟩
  · intro n hn
    rcases List.mem_cons.mp hn with rfl | hn
    · exact hnotice
    · exact h.notices n hn
  · refine List.pairwise_cons.mpr ⟨?_,h.reads⟩
    intro older hmem write wait replicaLsn row observed holder hnewer hrow
    subst holder
    rw [hread row observed hnewer,hrow]
    exact ownOrLater_of_returned h.ordered (h.notices _ hmem)

theorem commit (h : GateConsistent w) (record : WalRecord) :
    GateConsistent { w with wal := w.wal ++ [record] } := by
  have hlength : w.wal.length ≤ (w.wal ++ [record]).length := by
    rw [List.length_append]
    exact Nat.le_add_right _ _
  exact h.grow ⟨rfl,⟨[record],rfl⟩,Nat.le_refl _,Nat.le_refl _⟩
    ⟨h.ordered.1,h.ordered.2.trans hlength⟩ rfl rfl

private theorem update {row : Int} {displayName : String} {bytes : ℕ+} (h : GateConsistent w) :
    GateConsistent { w.put id ⟨some ⟨row,displayName,w.wal.length⟩,.updating⟩ with
      wal := w.wal ++ [⟨bytes,[(row,some displayName)]⟩] } := by
  have hcommitted := h.commit ⟨bytes,[(row,some displayName)]⟩
  refine hcommitted.put ?_
  intro write hwrite
  cases hwrite
  show ((w.wal ++ [_])[w.wal.length]?).bind _ = _
  rw [List.getElem?_concat_length,Option.bind_some]
  simp [LogRecord.image]

private theorem acknowledge {own : Write} (h : GateConsistent w)
    (hclient : w.client id = ⟨some own,.updating⟩) (hwritten : own.record < w.written) :
    w.ClientSound { w.client id with phase := .updated } := by
  have hinserted := h.clients id
  rw [hclient] at hinserted ⊢
  intro write hwrite
  cases hwrite
  exact ⟨hinserted own rfl,hwritten⟩

private theorem sample (h : GateConsistent w) (hphase : (w.client id).phase = .updated) :
    w.ClientSound { w.client id with phase := .sampled w.currentWalLsn } := by
  intro write hwrite
  obtain ⟨hinserted,hwritten⟩ := h.client hphase write hwrite
  exact ⟨hinserted,logPosition_mono hwritten h.ordered.2⟩

private theorem startWait {targetLsn : Nat} {own : Option Write} {timeoutMs : Option Int}
    (h : GateConsistent w) (hown : ∀ write ∈ own, w.Covers targetLsn write) :
    GateConsistent (w.startWait id own targetLsn timeoutMs) :=
  h.put hown

private theorem query {wait : LsnWait} (h : GateConsistent w)
    (hphase : (w.client id).phase = .querying wait) :
    w.ClientSound { w.client id with
      phase := .answered wait (caughtUpQuery w.lastWalReplayLsn wait.targetLsn) } := by
  refine ⟨h.client hphase,?_⟩
  unfold caughtUpQuery LsnWorld.lastWalReplayLsn
  cases w.recovered with
  | false => exact fun hcaught => nomatch hcaught
  | true => exact fun hcaught => of_decide_eq_true (Option.some.inj hcaught)

private theorem timeOut {wait : LsnWait} (h : GateConsistent w)
    (htime : ¬ w.clock - wait.start < wait.timeoutMs) :
    GateConsistent ((w.setPhase id (.threw wait.timeoutMessage)).note
      (.timedOut wait w.clock)) := by
  have hthrew : GateConsistent (w.setPhase id (.threw wait.timeoutMessage)) := h.put trivial
  apply hthrew.note
  · exact not_lt.mp htime
  · intro row observed hread
    cases hread

private theorem returnWait {wait : LsnWait} {result : LsnWaitResult} (h : GateConsistent w)
    (hcovers : ∀ write ∈ (w.client id).write, w.Covers wait.targetLsn write)
    (htarget : wait.targetLsn ≤ w.position w.replayed) :
    GateConsistent ((w.setPhase id (.returned result)).note
      (.returned (w.client id).write wait (w.position w.replayed))) := by
  have hreturned : GateConsistent (w.setPhase id (.returned result)) := h.put trivial
  apply hreturned.note
  · exact ⟨htarget,Nat.le_refl _,hcovers⟩
  · intro row observed hread
    cases hread

private theorem select (h : GateConsistent w) (row : Int) :
    GateConsistent (w.note (.read row (w.onReplica row))) := by
  apply h.note
  · trivial
  · intro row observed hread
    cases hread
    rfl

theorem step {e : LsnEvent} (h : GateConsistent w) (hs : lsnStep w e = some w') :
    GateConsistent w' := by
  cases e with
  | commit record =>
    cases hs
    exact h.commit record
  | flush n =>
    simp only [lsnStep] at hs
    split at hs <;> cases hs
    rename_i hn
    exact h.grow ⟨rfl,⟨[],(List.append_nil _).symm⟩,hn.1,Nat.le_refl _⟩
      ⟨h.ordered.1.trans hn.1,hn.2⟩ rfl rfl
  | replay n =>
    simp only [lsnStep] at hs
    split at hs <;> cases hs
    rename_i hn
    exact h.grow ⟨rfl,⟨[],(List.append_nil _).symm⟩,Nat.le_refl _,hn.1⟩ ⟨hn.2,h.ordered.2⟩ rfl rfl
  | tick now =>
    cases hs
    exact h.grow ⟨rfl,⟨[],(List.append_nil _).symm⟩,Nat.le_refl _,Nat.le_refl _⟩ h.ordered rfl rfl
  | update id row displayName bytes =>
    simp only [lsnStep] at hs
    split at hs <;> [skip; cases hs]
    split at hs <;> cases hs
    · exact h.put fun write hwrite => nomatch hwrite
    · exact h.update
  | acknowledge id =>
    simp only [lsnStep] at hs
    split at hs <;> [skip; cases hs]
    rename_i own hclient
    split at hs <;> cases hs
    rename_i hwritten
    exact h.put (h.acknowledge hclient hwritten)
  | getLsn id =>
    simp only [lsnStep] at hs
    split at hs <;> cases hs
    rename_i hphase
    exact h.put (h.sample hphase)
  | gate id timeoutMs =>
    simp only [lsnStep] at hs
    split at hs <;> cases hs
    rename_i lsn hphase
    exact h.startWait (h.client hphase)
  | waitFor id targetLsn timeoutMs =>
    simp only [lsnStep] at hs
    split at hs <;> cases hs
    exact h.startWait fun write hwrite => nomatch hwrite
  | check id =>
    simp only [lsnStep] at hs
    split at hs <;> [skip; cases hs]
    rename_i wait hphase
    have hcovers := h.client hphase
    split at hs <;> cases hs
    · exact h.put hcovers
    · rename_i htime
      exact h.timeOut htime
  | query id =>
    simp only [lsnStep] at hs
    split at hs <;> cases hs
    rename_i wait hphase
    exact h.put (h.query hphase)
  | resume id =>
    simp only [lsnStep] at hs
    split at hs <;> [skip; cases hs]
    rename_i wait row hphase
    obtain ⟨hcovers,hreached⟩ := h.client hphase
    split at hs <;> cases hs
    · rename_i hcaught
      exact h.returnWait hcovers (hreached hcaught)
    · exact h.put hcovers
  | wake id =>
    simp only [lsnStep] at hs
    split at hs <;> cases hs
    rename_i wait hphase
    have hcovers := h.client hphase
    exact h.put hcovers
  | select row =>
    cases hs
    exact h.select row

end GateConsistent

private theorem gate_consistent (h : Reachable lsnStep LsnWorld.Initial w) : GateConsistent w :=
  h.invariant (fun _ hs => gateConsistent_initial hs) fun _ _ _ hs _ hstep => hs.step hstep

/-- The wait's own steps lead to its error. -/
def LsnWorld.ThrowsNext (w : LsnWorld) (id : Nat) (wait : LsnWait) : Prop :=
  ∃ es t, (∀ e ∈ es, LsnEvent.caller e = some id) ∧ run lsnStep w es = some t ∧
    (t.client id).phase = .threw wait.timeoutMessage

@[simp] theorem setPhase_phase (w : LsnWorld) (id : Nat) (phase : GatePhase) :
    ((w.setPhase id phase).client id).phase = phase := by
  show (Function.update w.client id { w.client id with phase } id).phase = phase
  rw [Function.update_self]

theorem throwsNext_step {wait : LsnWait} {e : LsnEvent} (he : e.caller = some id)
    (hs : lsnStep w e = some w') (h : w'.ThrowsNext id wait) : w.ThrowsNext id wait := by
  obtain ⟨es,t,hes,hrun,hphase⟩ := h
  refine ⟨e::es,t,?_,?_,hphase⟩
  · intro e' he'
    rcases List.mem_cons.mp he' with rfl | he'
    · exact he
    · exact hes e' he'
  · rw [run_cons,hs,Option.bind_some]
    exact hrun

private theorem throwsNext_checking {wait : LsnWait} (hphase : (w.client id).phase = .checking wait)
    (htime : wait.timeoutMs ≤ w.clock - wait.start) : w.ThrowsNext id wait := by
  have hs : lsnStep w (.check id) = some ((w.setPhase id (.threw wait.timeoutMessage)).note
      (.timedOut wait w.clock)) := by
    simp only [lsnStep,hphase]
    exact if_neg (not_lt.mpr htime)
  refine throwsNext_step rfl hs ⟨[],_,?_,rfl,setPhase_phase w id _⟩
  intro e he
  cases he

private theorem throwsNext_sleeping {wait : LsnWait} (hphase : (w.client id).phase = .sleeping wait)
    (htime : wait.timeoutMs ≤ w.clock - wait.start) : w.ThrowsNext id wait := by
  have hs : lsnStep w (.wake id) = some (w.setPhase id (.checking wait)) := by
    simp only [lsnStep,hphase]
  exact throwsNext_step rfl hs (throwsNext_checking (setPhase_phase w id _) htime)

private theorem throwsNext_answered {wait : LsnWait} {row : CaughtUpRow}
    (hphase : (w.client id).phase = .answered wait row) (hrow : row.caughtUp ≠ some true)
    (htime : wait.timeoutMs ≤ w.clock - wait.start) : w.ThrowsNext id wait := by
  have hs : lsnStep w (.resume id) = some (w.setPhase id (.sleeping wait)) := by
    simp only [lsnStep,hphase]
    exact if_neg hrow
  exact throwsNext_step rfl hs (throwsNext_sleeping (setPhase_phase w id _) htime)

private theorem throwsNext_querying {wait : LsnWait} (hphase : (w.client id).phase = .querying wait)
    (hbehind : w.position w.replayed < wait.targetLsn)
    (htime : wait.timeoutMs ≤ w.clock - wait.start) : w.ThrowsNext id wait := by
  have hs : lsnStep w (.query id) = some (w.setPhase id
      (.answered wait (caughtUpQuery w.lastWalReplayLsn wait.targetLsn))) := by
    simp only [lsnStep,hphase]
  have hrow : (caughtUpQuery w.lastWalReplayLsn wait.targetLsn).caughtUp ≠ some true := by
    unfold caughtUpQuery LsnWorld.lastWalReplayLsn
    cases w.recovered with
    | false => exact fun hcaught => nomatch hcaught
    | true =>
      intro hcaught
      exact absurd (of_decide_eq_true (Option.some.inj hcaught)) (not_le.mpr hbehind)
  exact throwsNext_step rfl hs (throwsNext_answered (setPhase_phase w id _) hrow htime)

private theorem GateConsistent.throwsNext {wait : LsnWait} (h : GateConsistent w)
    (hwaiting : (w.client id).phase.waiting = some wait)
    (hbehind : w.position w.replayed < wait.targetLsn)
    (htime : wait.timeoutMs ≤ w.clock - wait.start) : w.ThrowsNext id wait := by
  cases hphase : (w.client id).phase with
  | checking =>
    rw [hphase] at hwaiting
    cases hwaiting
    exact throwsNext_checking hphase htime
  | querying =>
    rw [hphase] at hwaiting
    cases hwaiting
    exact throwsNext_querying hphase hbehind htime
  | answered =>
    rw [hphase] at hwaiting
    cases hwaiting
    obtain ⟨-,hreached⟩ := h.client hphase
    apply throwsNext_answered hphase _ htime
    exact fun hcaught => absurd (hreached hcaught) (not_le.mpr hbehind)
  | sleeping =>
    rw [hphase] at hwaiting
    cases hwaiting
    exact throwsNext_sleeping hphase htime
  | idle | updating | updated | sampled | returned | threw =>
    rw [hphase] at hwaiting
    cases hwaiting

/-- Whatever the servers and the other clients do: a read that follows a returned wait sees the
write the waiting client had committed, or a later one; a wait returns only when the replica has
replayed up to its target; and one that runs out of time throws. -/
theorem lsnGate_gated (h : Reachable lsnStep LsnWorld.Initial w) : Gated w := by
  have hw := gate_consistent h
  refine ⟨hw.reads,?_,?_,?_⟩
  · intro write wait replicaLsn hmem
    exact (hw.notices _ hmem).1
  · intro wait now hmem
    exact hw.notices _ hmem
  · intro id wait hwaiting hbehind htime
    exact hw.throwsNext hwaiting hbehind htime

/-- A base backup with one profile, at position 100. -/
def backedUp : LsnWorld :=
  ⟨fun row => if row = 1 then some "Ada" else none,100,[],0,0,false,0,fun _ => {},[]⟩

/-- Client 0 gates on its write. The replica reports nothing at the first poll. Another client's
write of the same row is replayed before the second, and then the row is read. -/
def gatedRead : List LsnEvent :=
  [.update 0 1 "Grace" 40,.flush 1,.acknowledge 0,.getLsn 0,.gate 0 none,.check 0,.query 0,
    .resume 0,.update 1 1 "Edsger" 40,.flush 2,.replay 2,.wake 0,.check 0,.query 0,.resume 0,
    .select 1]

theorem gatedRead_gated : ∃ w, run lsnStep backedUp gatedRead = some w ∧
    w.notices = [.read 1 (some "Edsger"),.returned (some ⟨1,"Grace",0⟩) ⟨140,5000,0,2⟩ 180] ∧
    Gated w := by
  have hrun : (run lsnStep backedUp gatedRead).map LsnWorld.notices =
      some [.read 1 (some "Edsger"),.returned (some ⟨1,"Grace",0⟩) ⟨140,5000,0,2⟩ 180] := by
    decide +kernel
  obtain ⟨w,hw,hnotices⟩ := Option.map_eq_some_iff.mp hrun
  have hstart : Reachable lsnStep LsnWorld.Initial backedUp :=
    .start ⟨Nat.le_refl 0,Nat.le_refl 0,rfl,rfl⟩
  exact ⟨w,hw,hnotices,lsnGate_gated (hstart.run hw)⟩

end SystemsLab.Replication
