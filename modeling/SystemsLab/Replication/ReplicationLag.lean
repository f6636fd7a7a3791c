import SystemsLab.Framework.Double
import Mathlib.Tactic.Linarith

/-!
# Replication lag, seen from the primary

`getReplicationLagFromPrimary` reads one streaming row of `pg_stat_replication`. A missing row
and a NULL `replay_lsn` come out as a lag of zero bytes, and with several standbys `LIMIT 1` may
pick another one than `replicaPool` is connected to.
-/

namespace SystemsLab.Replication

/-- The `state` column of `pg_stat_replication`. -/
inductive WalSenderState
  | startup
  | catchup
  | streaming
  | backup
  | stopping
  deriving DecidableEq, Repr

/-- A row of `pg_stat_replication`: LSNs are byte positions, `replay_lag` is in microseconds. -/
structure WalSender where
  standby : Nat
  state : Option WalSenderState
  replayLsn : Option Nat
  replayLag : Option Int
  deriving DecidableEq, Repr

/-- A primary and its standbys at one instant. `senders` has the rows of `pg_stat_replication` in
the order the server scans them, and `replica` is the standby behind `replicaPool`. -/
structure ReplicationState where
  walLsn : Nat
  senders : List WalSender
  replayed : Nat → Nat
  replica : Nat
  reported : ∀ s ∈ senders, ∀ lsn, s.replayLsn = some lsn → lsn ≤ replayed s.standby

/-- `pg_wal_lsn_diff`, which is signed. -/
def walLsnDiff (lsn other : Nat) : Int := lsn - other

structure LagRow where
  state : Option WalSenderState
  replayLagBytes : Option Int
  replayLagMs : Option ℚ

def WalSender.lagRow (walLsn : Nat) (s : WalSender) : LagRow :=
  ⟨s.state,s.replayLsn.map (walLsnDiff walLsn),s.replayLag.map fun micros => (micros : ℚ) / 1000⟩

/-- The row that `WHERE state = 'streaming' LIMIT 1` leaves. -/
def ReplicationState.measured (r : ReplicationState) : Option WalSender :=
  r.senders.find? fun s => s.state = some .streaming

structure ReplicationLagSample where
  replayLagMs : Option ℚ
  replayLagBytes : ℚ
  state : Option WalSenderState
  deriving DecidableEq

def getReplicationLagFromPrimary (r : ReplicationState) : ReplicationLagSample :=
  let row := r.measured.map (WalSender.lagRow r.walLsn)
  { state := row.bind LagRow.state
    -- a numeric arrives as text, and no numeral is falsy, not even "0"
    replayLagBytes := match row.bind LagRow.replayLagBytes with
      | some bytes => toDouble bytes
      | none => 0
    replayLagMs := (row.bind LagRow.replayLagMs).map toDouble }

structure CaughtUpOptions where
  thresholdBytes : Option Int := none
  timeoutMs : Option Int := none

/-- What one turn of the polling loop meets: the clock at the loop condition and the servers at
the query. -/
structure Poll where
  now : Int
  servers : ReplicationState

inductive CaughtUpOutcome
  | polling
  | returned (sample : ReplicationLagSample) (sampledAt : ReplicationState)
  | threw (message : String)

def waitForReplicationCaughtUp (options : CaughtUpOptions) (start : Int) :
    List Poll → CaughtUpOutcome
  | [] => .polling
  | poll::polls =>
    let thresholdBytes := options.thresholdBytes.getD 0
    let timeoutMs := options.timeoutMs.getD 3000
    if poll.now - start < timeoutMs then
      let sample := getReplicationLagFromPrimary poll.servers
      if sample.replayLagBytes ≤ thresholdBytes then .returned sample poll.servers
      else waitForReplicationCaughtUp options start polls
    else
      .threw ("replication backlog never dropped to <= " ++ toString thresholdBytes ++
        " bytes within " ++ toString timeoutMs ++ "ms")

inductive Route
  | primary
  | replica
  deriving DecidableEq, Repr

def LAG_THRESHOLD_BYTES : ℚ := 100

/-- Where strategy C sends the next read. -/
def route (lag : ReplicationLagSample) : Route :=
  if lag.replayLagBytes > LAG_THRESHOLD_BYTES then .primary else .replica

private theorem route_eq_replica {lag : ReplicationLagSample} :
    route lag = .replica ↔ lag.replayLagBytes ≤ LAG_THRESHOLD_BYTES := by
  unfold route
  split
  · rename_i hover
    exact iff_of_false (by decide) (not_le_of_gt hover)
  · rename_i hunder
    exact iff_of_true rfl (le_of_not_gt hunder)

private theorem waitForReplicationCaughtUp_returned {options : CaughtUpOptions} {start : Int}
    {polls : List Poll} {sample : ReplicationLagSample} {r : ReplicationState}
    (h : waitForReplicationCaughtUp options start polls = .returned sample r) :
    sample = getReplicationLagFromPrimary r ∧
      sample.replayLagBytes ≤ options.thresholdBytes.getD 0 ∧ ∃ poll ∈ polls, poll.servers = r := by
  induction polls with
  | nil => cases h
  | cons poll polls ih =>
    unfold waitForReplicationCaughtUp at h
    dsimp only at h
    split at h
    · split at h
      · rename_i hbelow
        cases h
        exact ⟨rfl,hbelow,poll,List.mem_cons_self,rfl⟩
      · obtain ⟨hsample,hbelow,p,hp,hservers⟩ := ih h
        exact ⟨hsample,hbelow,p,List.mem_cons_of_mem _ hp,hservers⟩
    · cases h

/-- The replica that is read lacks at most `bytes` of the primary's WAL. -/
def ReplicationState.Within (r : ReplicationState) (bytes : ℚ) : Prop :=
  (r.walLsn : ℚ) - bytes ≤ r.replayed r.replica

/-- If some `replay_lsn` was read, the replica has replayed that far, give or take what `Number`
rounds away; if none was read, it has replayed everything. -/
def ReplicationState.Accounted (r : ReplicationState) : Prop :=
  match r.measured.bind WalSender.replayLsn with
  | some lsn => (lsn : ℚ) ≤ r.replayed r.replica + roundingError (walLsnDiff r.walLsn lsn)
  | none => r.walLsn ≤ r.replayed r.replica

instance (r : ReplicationState) (bytes : ℚ) : Decidable (r.Within bytes) :=
  inferInstanceAs (Decidable (_ ≤ _))

private theorem replayLagBytes_of_reported {r : ReplicationState} {lsn : Nat}
    (h : r.measured.bind WalSender.replayLsn = some lsn) :
    (getReplicationLagFromPrimary r).replayLagBytes = toDouble (walLsnDiff r.walLsn lsn) := by
  obtain ⟨s,hs,hlsn⟩ := Option.bind_eq_some_iff.mp h
  unfold getReplicationLagFromPrimary
  rw [hs]
  dsimp only [Option.map_some,Option.bind_some,WalSender.lagRow]
  rw [hlsn]
  rfl

/-- No streaming row, or no position in it, reads as no lag. -/
theorem replayLagBytes_of_silent {r : ReplicationState}
    (h : r.measured.bind WalSender.replayLsn = none) :
    (getReplicationLagFromPrimary r).replayLagBytes = 0 := by
  unfold getReplicationLagFromPrimary
  cases hs : r.measured with
  | none => rfl
  | some s =>
    rw [hs,Option.bind_some] at h
    dsimp only [Option.map_some,Option.bind_some,WalSender.lagRow]
    rw [h]
    rfl

theorem within_iff_accounted (r : ReplicationState) :
    r.Within (getReplicationLagFromPrimary r).replayLagBytes ↔ r.Accounted := by
  unfold ReplicationState.Within ReplicationState.Accounted
  cases h : r.measured.bind WalSender.replayLsn with
  | none =>
    rw [replayLagBytes_of_silent h,sub_zero]
    exact Nat.cast_le
  | some lsn =>
    rw [replayLagBytes_of_reported h]
    have hdiff : ((walLsnDiff r.walLsn lsn : Int) : ℚ) = r.walLsn - lsn := by
      unfold walLsnDiff
      push_cast
      rfl
    dsimp only [roundingError]
    rw [hdiff]
    constructor
    · intro hle
      linarith
    · intro hle
      linarith

private theorem accounted_of_own {r : ReplicationState} {s : WalSender} {lsn : Nat}
    (hs : r.measured = some s) (hown : s.standby = r.replica) (hlsn : s.replayLsn = some lsn)
    (hdiff : |walLsnDiff r.walLsn lsn| < 2 ^ 53) : r.Accounted := by
  unfold ReplicationState.Accounted
  rw [hs,Option.bind_some,hlsn]
  dsimp only
  rw [roundingError_intCast hdiff,add_zero,Nat.cast_le,← hown]
  exact r.reported s (List.mem_of_find?_eq_some hs) lsn hlsn

/-- When nothing is measured, the wait is over at its first poll and strategy C reads from the
replica, however far behind that is. -/
theorem silent_readsReplica (r : ReplicationState) (options : CaughtUpOptions) (start now : Int)
    (polls : List Poll) (h : r.measured.bind WalSender.replayLsn = none)
    (hthreshold : 0 ≤ options.thresholdBytes.getD 0)
    (htime : now - start < options.timeoutMs.getD 3000) :
    waitForReplicationCaughtUp options start (⟨now,r⟩::polls) =
        .returned (getReplicationLagFromPrimary r) r ∧
      route (getReplicationLagFromPrimary r) = .replica := by
  have hbytes := replayLagBytes_of_silent h
  constructor
  · unfold waitForReplicationCaughtUp
    dsimp only
    rw [if_pos htime,hbytes,if_pos (by exact_mod_cast hthreshold)]
  · rw [route_eq_replica,hbytes]
    decide

/-- The number of bytes bounds how far the replica is behind exactly when the position it was
computed from is one the replica has reached; so for a wait that returns, and for a read that
strategy C sends to the replica. -/
theorem lagBytes_bound_iff (r : ReplicationState) :
    (r.Within (getReplicationLagFromPrimary r).replayLagBytes ↔ r.Accounted) ∧
    (∀ (options : CaughtUpOptions) (start : Int) (polls : List Poll)
        (sample : ReplicationLagSample),
      waitForReplicationCaughtUp options start polls = .returned sample r →
      (∃ poll ∈ polls, poll.servers = r) ∧
        sample.replayLagBytes ≤ options.thresholdBytes.getD 0 ∧
        (r.Within sample.replayLagBytes ↔ r.Accounted)) ∧
    (route (getReplicationLagFromPrimary r) = .replica →
      (getReplicationLagFromPrimary r).replayLagBytes ≤ LAG_THRESHOLD_BYTES ∧
        (r.Within (getReplicationLagFromPrimary r).replayLagBytes ↔ r.Accounted)) := by
  refine ⟨within_iff_accounted r,?_,?_⟩
  · intro options start polls sample h
    obtain ⟨hsample,hbelow,hpoll⟩ := waitForReplicationCaughtUp_returned h
    rw [hsample] at hbelow ⊢
    exact ⟨hpoll,hbelow,within_iff_accounted r⟩
  · intro h
    exact ⟨route_eq_replica.mp h,within_iff_accounted r⟩

/-- The replica has dropped its connection and lacks 400 bytes. -/
def disconnected : ReplicationState := ⟨1000,[],fun _ => 600,0,by simp⟩

theorem disconnected_notBounded :
    ¬ disconnected.Within (getReplicationLagFromPrimary disconnected).replayLagBytes ∧
    (∃ sample, waitForReplicationCaughtUp {} 0 [⟨0,disconnected⟩] = .returned sample disconnected ∧
      ¬ disconnected.Within sample.replayLagBytes) ∧
    route (getReplicationLagFromPrimary disconnected) = .replica := by
  have hsilent : disconnected.measured.bind WalSender.replayLsn = none := rfl
  have hbehind :
      ¬ disconnected.Within (getReplicationLagFromPrimary disconnected).replayLagBytes := by
    rw [replayLagBytes_of_silent hsilent]
    decide +kernel
  have hreads := silent_readsReplica disconnected {} 0 0 [] hsilent (by decide) (by decide)
  exact ⟨hbehind,⟨_,hreads.1,hbehind⟩,hreads.2⟩

/-- Standby 0 serves the reads and streams 40 bytes behind, standby 1 is catching up. -/
def streamingBehind : ReplicationState where
  walLsn := 1000
  senders := [⟨1,some .catchup,some 200,none⟩,⟨0,some .streaming,some 960,some 1500⟩]
  replayed := fun standby => if standby = 0 then 970 else 200
  replica := 0
  reported := by
    intro s hs lsn hlsn
    simp only [List.mem_cons,List.not_mem_nil,or_false] at hs
    rcases hs with rfl | rfl <;> cases hlsn <;> decide

theorem streamingBehind_bounded :
    let sample := getReplicationLagFromPrimary streamingBehind
    (sample.replayLagBytes ≤ 50 ∧ streamingBehind.Within sample.replayLagBytes) ∧
      sample.replayLagBytes ≤ LAG_THRESHOLD_BYTES ∧
        streamingBehind.Within sample.replayLagBytes := by
  intro sample
  have hown : streamingBehind.Accounted := accounted_of_own rfl rfl rfl (by decide)
  have hreported : streamingBehind.measured.bind WalSender.replayLsn = some 960 := rfl
  have hbytes : sample.replayLagBytes = (40 : Int) := by
    show (getReplicationLagFromPrimary streamingBehind).replayLagBytes = _
    rw [replayLagBytes_of_reported hreported,toDouble_intCast (by decide)]
    rfl
  have hwait : waitForReplicationCaughtUp ⟨some 50,none⟩ 0 [⟨7,streamingBehind⟩] =
      .returned sample streamingBehind := by
    unfold waitForReplicationCaughtUp
    rw [if_pos (by decide)]
    exact if_pos (hbytes.le.trans (by decide))
  have hroute : route sample = .replica := route_eq_replica.mpr (hbytes.le.trans (by decide))
  have hreturned := (lagBytes_bound_iff streamingBehind).2.1 _ _ _ _ hwait
  have hrouted := (lagBytes_bound_iff streamingBehind).2.2 hroute
  exact ⟨⟨hreturned.2.1,hreturned.2.2.mpr hown⟩,hrouted.1,hrouted.2.mpr hown⟩

end SystemsLab.Replication
