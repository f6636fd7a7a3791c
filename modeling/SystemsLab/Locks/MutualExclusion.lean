import SystemsLab.Locks.BasicLock

/-!
# Mutual exclusion of the basic lock

What Redis stores under the lock key is the tenure that runs: a command finds an entry exactly
if somebody has the lease. So a script that compares the token compares it with the holder's.
-/

namespace SystemsLab.Locks

variable {key : String} {w w' : LockWorld} {db : Keyspace} {now : Int} {t : String}

/-- The entry is the running tenure. -/
structure LockWorld.Consistent (key : String) (w : LockWorld) : Prop where
  orderly : Orderly w.history
  times : ∀ e ∈ w.history, e.time ≤ w.clock
  entry : ∀ e, w.redis.lookup w.clock key = some e ↔
    ∃ t s, e = ⟨.text t,some s⟩ ∧ endOf w.history t = some s ∧ w.clock < s
  attempted : ∀ t a b, .granted t a b ∈ w.history → t ∈ w.attempted

namespace LockWorld.Consistent

theorem holds_iff (h : w.Consistent key) :
    Holds w.history t w.clock ↔ ∃ s, endOf w.history t = some s ∧ w.clock < s :=
  SystemsLab.holds_iff h.times

theorem get_iff (h : w.Consistent key) :
    w.redis.get w.clock key = some t ↔ Holds w.history t w.clock := by
  rw [Keyspace.get,Option.map_eq_some_iff,h.holds_iff]
  constructor
  · rintro ⟨e,he,rfl⟩
    obtain ⟨u,s,rfl,hs,hlt⟩ := (h.entry e).mp he
    exact ⟨s,hs,hlt⟩
  · rintro ⟨s,hs,hlt⟩
    exact ⟨⟨.text t,some s⟩,(h.entry _).mpr ⟨t,s,rfl,hs,hlt⟩,rfl⟩

theorem keep (h : w.Consistent key) (call : LockCall) :
    (w.reply call w.redis false).Consistent key := by
  refine ⟨h.orderly,h.times,h.entry,?_⟩
  intro u a b hmem
  unfold LockWorld.attempted LockWorld.reply
  rw [List.filterMap_cons]
  have hold := h.attempted u a b hmem
  split
  · exact hold
  · exact List.mem_cons_of_mem _ hold

private theorem change (h : w.Consistent key) {call : LockCall} {redis : Keyspace}
    {e : TenureEvent String} (hevent : LockReply.event ⟨call,w.clock,true⟩ = some e)
    (horderly : Orderly (e::w.history))
    (hentry : ∀ r, redis.lookup w.clock key = some r ↔
      ∃ s, r = ⟨.text e.holder,some s⟩ ∧ s = e.expiry ∧ w.clock < s)
    (hothers : ∀ u, Holds w.history u w.clock → u = e.holder) (htime : e.time = w.clock)
    (hgranted : ∀ u a b, e = .granted u a b → ∃ ttlMs, call = .acquire u ttlMs) :
    (w.reply call redis true).Consistent key := by
  have hhistory : (w.reply call redis true).history = e::w.history := by
    unfold LockWorld.history LockWorld.reply
    rw [List.filterMap_cons,hevent]
  refine ⟨?_,?_,?_,?_⟩
  · rw [hhistory]
    exact horderly
  · rw [hhistory]
    intro o ho
    rcases List.mem_cons.mp ho with rfl | ho
    · exact htime.le
    · exact h.times o ho
  · intro r
    rw [hhistory]
    show redis.lookup w.clock key = some r ↔ _
    rw [hentry]
    constructor
    · rintro ⟨s,hr,rfl,hlt⟩
      exact ⟨e.holder,e.expiry,hr,endOf_self _ _,hlt⟩
    · rintro ⟨u,s,hr,hs,hlt⟩
      by_cases hu : e.holder = u
      · subst hu
        rw [endOf_self] at hs
        exact ⟨s,hr,(Option.some.inj hs).symm,hlt⟩
      · rw [endOf_other _ hu] at hs
        exact absurd (hothers u (h.holds_iff.mpr ⟨s,hs,hlt⟩)).symm hu
  · rw [hhistory]
    intro u a b hmem
    unfold LockWorld.attempted LockWorld.reply
    rw [List.filterMap_cons]
    rcases List.mem_cons.mp hmem with heq | hold
    · obtain ⟨ttlMs,rfl⟩ := hgranted u a b heq.symm
      exact List.mem_cons_self
    · have hold := h.attempted u a b hold
      split
      · exact hold
      · exact List.mem_cons_of_mem _ hold

private theorem acquire (h : w.Consistent key) {ttlMs : Int} {redis : Keyspace}
    (hfresh : t ∉ w.attempted) (hpositive : 0 < ttlMs)
    (hreply : acquireLock w.redis w.clock key t ttlMs = .ok (redis,true)) :
    (w.reply (.acquire t ttlMs) redis true).Consistent key := by
  obtain ⟨hnone,rfl⟩ := Keyspace.setNxPx_granted hreply
  have hfree : ∀ u, ¬ Holds w.history u w.clock := by
    intro u hu
    rw [← h.get_iff,Keyspace.get,hnone] at hu
    cases hu
  apply h.change rfl
  · refine ⟨h.times,h.orderly,?_,hfree⟩
    by_contra hsome
    obtain ⟨s,hs⟩ := Option.ne_none_iff_exists'.mp hsome
    obtain ⟨a,b,hgranted⟩ := h.orderly.exists_granted hs
    exact hfresh (h.attempted t a b hgranted)
  · intro r
    rw [Keyspace.lookup_update _ (expired_text.mpr (by omega))]
    constructor
    · rintro ⟨⟩
      exact ⟨_,rfl,rfl,by omega⟩
    · rintro ⟨s,rfl,rfl,_⟩
      rfl
  · exact fun u hu => absurd hu (hfree u)
  · rfl
  · rintro u a b ⟨⟩
    exact ⟨ttlMs,rfl⟩

private theorem release (h : w.Consistent key) (hget : w.redis.get w.clock key = some t) :
    (w.reply (.release t) (w.redis.del key) true).Consistent key := by
  have hheld := h.get_iff.mp hget
  apply h.change rfl
  · exact ⟨h.times,h.orderly,hheld⟩
  · intro r
    constructor
    · intro hr
      rw [Keyspace.lookup_eq_some,Keyspace.del,Function.update_self] at hr
      cases hr.1
    · rintro ⟨s,_,rfl,hlt⟩
      exact absurd hlt (lt_irrefl _)
  · exact fun u hu => h.orderly.unique hu hheld
  · rfl
  · nofun

private theorem renew (h : w.Consistent key) {ttlMs : Int} (hpositive : 0 < ttlMs)
    (hget : w.redis.get w.clock key = some t) :
    (w.reply (.renew t ttlMs) (w.redis.pexpire w.clock key ttlMs) true).Consistent key := by
  have hheld := h.get_iff.mp hget
  obtain ⟨s,hs,hlt⟩ := h.holds_iff.mp hheld
  have hlookup := (h.entry _).mpr ⟨t,s,rfl,hs,hlt⟩
  apply h.change rfl
  · exact ⟨h.times,h.orderly,hheld⟩
  · intro r
    rw [Keyspace.pexpire,if_neg (by omega),hlookup,Option.map_some,
      Keyspace.lookup_update _ (expired_text.mpr (by omega))]
    constructor
    · rintro ⟨⟩
      exact ⟨_,rfl,rfl,by omega⟩
    · rintro ⟨s,rfl,rfl,_⟩
      rfl
  · exact fun u hu => h.orderly.unique hu hheld
  · rfl
  · nofun

private theorem advance (h : w.Consistent key) (ms : Nat) :
    ({ w with clock := w.clock + ms } : LockWorld).Consistent key := by
  have hle : w.clock ≤ w.clock + ms := by omega
  refine ⟨h.orderly,fun e he => (h.times e he).trans hle,?_,h.attempted⟩
  intro e
  show w.redis.lookup (w.clock + ms) key = some e ↔ _
  rw [Keyspace.lookup_eq_some]
  constructor
  · rintro ⟨hdb,hexpired⟩
    obtain ⟨t,s,rfl,hs,_⟩ := (h.entry e).mp
      (Keyspace.lookup_eq_some.mpr ⟨hdb,RedisEntry.expired_of_le hle hexpired⟩)
    exact ⟨t,s,rfl,hs,expired_text.mp hexpired⟩
  · rintro ⟨t,s,rfl,hs,hlt⟩
    have hlookup := (h.entry _).mpr ⟨t,s,rfl,hs,hle.trans_lt hlt⟩
    exact ⟨(Keyspace.lookup_eq_some.mp hlookup).1,expired_text.mpr hlt⟩

theorem step (h : w.Consistent key) {e : LockEvent} (hfresh : e.FreshToken w)
    (hs : lockStep key w e = some w') : w'.Consistent key := by
  cases e with
  | advance ms =>
    cases hs
    exact h.advance ms
  | call call =>
    cases call with
    | acquire t ttlMs =>
      obtain ⟨htoken,hpositive⟩ := hfresh
      unfold lockStep at hs
      dsimp only at hs
      cases hreply : acquireLock w.redis w.clock key t ttlMs with
      | error e =>
        rw [hreply] at hs
        cases hs
        exact h
      | ok r =>
        obtain ⟨redis,result⟩ := r
        rw [hreply] at hs
        cases hs
        cases result with
        | true => exact h.acquire htoken hpositive hreply
        | false =>
          rw [Keyspace.setNxPx_refused hreply]
          exact h.keep _
    | release t =>
      by_cases hget : w.redis.get w.clock key = some t
      · have hreply : releaseLock w.redis w.clock key t = (w.redis.del key,true) := if_pos hget
        rw [lockStep,hreply] at hs
        cases hs
        exact h.release hget
      · have hreply : releaseLock w.redis w.clock key t = (w.redis,false) := if_neg hget
        rw [lockStep,hreply] at hs
        cases hs
        exact h.keep _
    | renew t ttlMs =>
      by_cases hget : w.redis.get w.clock key = some t
      · have hreply : renewLock w.redis w.clock key t ttlMs =
            (w.redis.pexpire w.clock key ttlMs,true) := if_pos hget
        rw [lockStep,hreply] at hs
        cases hs
        exact h.renew hfresh hget
      · have hreply : renewLock w.redis w.clock key t ttlMs = (w.redis,false) := if_neg hget
        rw [lockStep,hreply] at hs
        cases hs
        exact h.keep _

theorem start (h : w.Free key) : w.Consistent key := by
  obtain ⟨hfree,hreplies⟩ := h
  have hhistory : w.history = [] := by
    rw [LockWorld.history,hreplies]
    rfl
  refine ⟨?_,?_,?_,?_⟩
  · rw [hhistory]
    trivial
  · rw [hhistory]
    nofun
  · intro e
    rw [hfree,hhistory]
    constructor
    · nofun
    · rintro ⟨t,s,_,hs,_⟩
      cases hs
  · rw [hhistory]
    nofun

end LockWorld.Consistent

/-- The replies that clients have seen are those of a lock. -/
structure LockWorld.Exclusive (key : String) (w : LockWorld) : Prop where
  stored : ∀ t, w.redis.get w.clock key = some t ↔ Holds w.history t w.clock
  one : ∀ t u x, Holds w.history t x → Holds w.history u x → t = u
  disjoint : w.history.Pairwise fun e o =>
    Disjoint (tenure w.history e) (tenure w.history o)
  released : ∀ t w', ¬ Holds w.history t w.clock →
    lockStep key w (.call (.release t)) = some w' → w' = w.reply (.release t) w.redis false
  notRenewed : ∀ t ttlMs w', ¬ Holds w.history t w.clock →
    lockStep key w (.call (.renew t ttlMs)) = some w' → w' = w.reply (.renew t ttlMs) w.redis false
  renewed : ∀ t ttlMs time newer older,
    w.replies = newer ++ ⟨.renew t ttlMs,time,true⟩::older → ∃ r ∈ older, ∃ ttlMs',
      r.call = .acquire t ttlMs' ∧ r.result = true ∧
        ∀ x, r.time ≤ x → x ≤ time → Holds (older.filterMap LockReply.event) t x

private theorem event_granted {r : LockReply} {a b : Int} (h : r.event = some (.granted t a b)) :
    ∃ ttlMs, r.call = .acquire t ttlMs ∧ r.result = true ∧ r.time = a := by
  obtain ⟨call,time,result⟩ := r
  cases result with
  | false => cases h
  | true =>
    cases call with
    | acquire u ttlMs =>
      cases h
      exact ⟨ttlMs,rfl,rfl,rfl⟩
    | release u => cases h
    | renew u ttlMs => cases h

private theorem LockWorld.Consistent.exclusive (h : w.Consistent key) : w.Exclusive key := by
  refine ⟨fun t => h.get_iff,fun t u x => h.orderly.unique,h.orderly.tenures_disjoint,?_,?_,?_⟩
  · intro t w' hheld hs
    rw [← h.get_iff] at hheld
    have hreply : releaseLock w.redis w.clock key t = (w.redis,false) := if_neg hheld
    rw [lockStep,hreply] at hs
    exact (Option.some.inj hs).symm
  · intro t ttlMs w' hheld hs
    rw [← h.get_iff] at hheld
    have hreply : renewLock w.redis w.clock key t ttlMs = (w.redis,false) := if_neg hheld
    rw [lockStep,hreply] at hs
    exact (Option.some.inj hs).symm
  · intro t ttlMs time newer older hreplies
    have horderly := h.orderly
    rw [LockWorld.history,hreplies,List.filterMap_append,List.filterMap_cons] at horderly
    obtain ⟨a,b,hgranted,hheld⟩ := Orderly.held_since horderly
    obtain ⟨r,hr,hevent⟩ := List.mem_filterMap.mp hgranted
    obtain ⟨ttlMs',hcall,hresult,rfl⟩ := event_granted hevent
    exact ⟨r,hr,ttlMs',hcall,hresult,hheld⟩

theorem basicLock_exclusive (h : ReachableBy (lockStep key) (LockWorld.Free key)
    (fun w e => e.FreshToken w) w) : w.Exclusive key := by
  have hconsistent : w.Consistent key :=
    h.invariant (fun _ => .start) fun _ _ _ hw hfresh hs => hw.step hfresh hs
  exact hconsistent.exclusive

def freeLock : LockWorld where
  redis := fun _ => none
  clock := 0

/-- The holder renews once and then lets its lease lapse, and comes back too late. -/
def staleHolder : List LockEvent :=
  [.call (.acquire "a" 10),.advance 6,.call (.renew "a" 10),.call (.acquire "b" 10),.advance 10,
    .call (.acquire "c" 10),.call (.renew "a" 10),.call (.release "a"),.call (.release "c")]

theorem staleHolder_exclusive : ∃ w, run (lockStep "lock") freeLock staleHolder = some w ∧
    w.replies.map LockReply.result = [true,false,false,true,false,true,true] ∧
    w.Exclusive "lock" := by
  have hrun : (run (lockStep "lock") freeLock staleHolder).isSome = true := by decide +kernel
  obtain ⟨w,hw⟩ := Option.isSome_iff_exists.mp hrun
  have hreplies : (run (lockStep "lock") freeLock staleHolder).map
      (fun w => w.replies.map LockReply.result) =
        some [true,false,false,true,false,true,true] := by decide +kernel
  rw [hw,Option.map_some] at hreplies
  have hstart : ReachableBy (lockStep "lock") (LockWorld.Free "lock")
    (fun w e => e.FreshToken w) freeLock := .start ⟨rfl,rfl⟩
  exact ⟨w,hw,Option.some.inj hreplies,basicLock_exclusive (hstart.run (by decide +kernel) hw)⟩

end SystemsLab.Locks
