import SystemsLab.Locks.FencingToken
import Mathlib.Tactic.Push

/-!
# When fencing tokens follow the acquisitions

Tokens are drawn by `INCR`, so they are ordered by the draws. They are ordered by the
acquisitions exactly when no caller draws after a later acquirer of the same key has drawn.
-/

namespace SystemsLab.Locks

/-- What one event can do to the world. -/
inductive FencingMove (w : FencingWorld) : FencingEvent → FencingWorld → Prop
  | denied {id r o ttl} (ph : FencingPhase) : (w.caller id).phase = .idle →
      ph = .refused ∨ ph = .failed →
      FencingMove w (.setNx id r o ttl) (w.put id { resource := r, phase := ph })
  | granted {id r o ttl} : (w.caller id).phase = .idle →
      w.redis.lookup w.clock (lockKeyFor r) = none →
      FencingMove w (.setNx id r o ttl) { w.put id
        { resource := r, phase := .acquired, turn := w.issued.length,
          leaseUntil := w.clock + ttl } with
        redis := Function.update w.redis (lockKeyFor r) (some ⟨.text o,some (w.clock + ttl)⟩)
        issued := id::w.issued }
  | incrFailed {id} : (w.caller id).phase = .acquired →
      FencingMove w (.incr id) (w.put id { w.caller id with phase := .failed })
  | drew {id} (redis : Keyspace) (n : Int) : (w.caller id).phase = .acquired →
      w.redis.incr w.clock (fencingCounterKeyFor (w.caller id).resource) = .ok (redis,n) →
      FencingMove w (.incr id)
        { w.put id { w.caller id with phase := .holding n } with redis }
  | wrote {id writer} (n : Int) : (w.caller id).phase = .holding n →
      FencingMove w (.write id writer) { w with
        resourceState :=
          (writeResourceStateFenced w.resourceState (w.caller id).resource writer n).1
        accepted :=
          if (writeResourceStateFenced w.resourceState (w.caller id).resource writer n).2 = 0
          then w.accepted else id::w.accepted }
  | wroteUnlocked {id writer} : (w.caller id).phase = .refused →
      FencingMove w (.write id writer) { w with resourceState :=
        (writeResourceStateFenced w.resourceState (w.caller id).resource writer (-1)).1 }
  | advanced (ms : Nat) : FencingMove w (.advance ms) { w with clock := w.clock + ms }

theorem fencingStep_move {w w' : FencingWorld} {e : FencingEvent}
    (h : fencingStep w e = some w') : FencingMove w e w' := by
  cases e with
  | setNx id r o ttl =>
    simp only [fencingStep] at h
    split at h
    · rename_i hidle
      split at h <;> cases h
      · exact .denied _ hidle (.inr rfl)
      · exact .denied _ hidle (.inl rfl)
      · rename_i redis hset
        obtain ⟨hl,rfl⟩ := Keyspace.setNxPx_granted hset
        exact .granted hidle hl
    · cases h
  | incr id =>
    simp only [fencingStep] at h
    split at h
    · rename_i hacq
      split at h <;> cases h
      · exact .incrFailed hacq
      · rename_i redis n hincr
        exact .drew redis n hacq hincr
    · cases h
  | write id writer =>
    simp only [fencingStep] at h
    split at h <;> cases h
    · rename_i n hn
      exact .wrote n hn
    · rename_i hr
      exact .wroteUnlocked hr
  | advance ms =>
    cases h
    exact .advanced ms

private theorem writeResourceStateFenced_ge {rows : List ResourceStateRow} {name : String}
    {writer : String} {token bound : Int} {target : String}
    (h : ∀ row ∈ rows, row.name = target → bound ≤ row.fencingToken) :
    ∀ row ∈ (writeResourceStateFenced rows name writer token).1,
      row.name = target → bound ≤ row.fencingToken := by
  refine forall_mem_updateWhere
    (Q := fun row : ResourceStateRow => row.name = target → bound ≤ row.fencingToken) h ?_ ?_
  · intro row _ hb hhit hname
    simp only [Bool.and_eq_true,decide_eq_true_eq] at hhit
    have := hb hname
    change bound ≤ token
    omega
  · exact fun row _ hb _ => hb

private theorem writeResourceStateFenced_own (rows : List ResourceStateRow) (name writer : String)
    (token : Int) :
    ∀ row ∈ (writeResourceStateFenced rows name writer token).1,
      row.name = name → token ≤ row.fencingToken := by
  refine forall_mem_updateWhere (P := fun _ => True)
    (Q := fun row : ResourceStateRow => row.name = name → token ≤ row.fencingToken)
    (fun _ _ => trivial) ?_ ?_
  · exact fun row _ _ _ _ => le_rfl
  · intro row _ _ hmiss hname
    simp only [hname,beq_self_eq_true,Bool.true_and,decide_eq_false_iff_not] at hmiss
    omega

/-- A row count above zero means some row of that name held a smaller token. -/
theorem writeResourceStateFenced_count {rows : List ResourceStateRow} {name writer : String}
    {token : Int} (h : (writeResourceStateFenced rows name writer token).2 ≠ 0) :
    ∃ row ∈ rows, row.name = name ∧ row.fencingToken < token := by
  have hpos := Nat.pos_of_ne_zero h
  obtain ⟨row,hrow,hhit⟩ := List.countP_pos_iff.mp hpos
  exact ⟨row,hrow,by simpa using hhit⟩

structure Ordered (w : FencingWorld) : Prop where
  counter : ∀ r e, w.redis (fencingCounterKeyFor r) = some e → e.expiresAt = none
  issued : ∀ a n, (w.caller a).phase = .holding n → a ∈ w.issued
  drawn : ∀ a n, (w.caller a).phase = .holding n → ∃ k,
    w.redis (fencingCounterKeyFor (w.caller a).resource) = some ⟨.counter k,none⟩ ∧ n ≤ k
  acquired : ∀ a, (w.caller a).phase = .acquired → a ∈ w.issued
  fenced : Fenced w
  marked : ∀ a ∈ w.accepted, ∃ n, (w.caller a).phase = .holding n ∧
    ∀ row ∈ w.resourceState, row.name = (w.caller a).resource → n ≤ row.fencingToken

private theorem ordered_of_fresh {w : FencingWorld} (h : w.Fresh) : Ordered w := by
  obtain ⟨hc,hi,ha,hk⟩ := h
  have hidle : ∀ a, (w.caller a).phase = .idle := by
    intro a
    rw [hc]
  refine ⟨hk,?_,?_,?_,⟨?_,?_⟩,?_⟩
  · intro a n hn
    rw [hidle] at hn
    cases hn
  · intro a n hn
    rw [hidle] at hn
    cases hn
  · intro a hn
    rw [hidle] at hn
    cases hn
  · intro a b m n hm
    rw [hidle] at hm
    cases hm
  · rw [ha]
    exact .nil
  · rw [ha]
    nofun

private theorem Ordered.put {w : FencingWorld} (h : Ordered w) {id : Nat} {c : Caller}
    (hold : (w.caller id).token = none) (hnew : c.token = none)
    (hacq : c.phase = .acquired → id ∈ w.issued) : Ordered (w.put id c) := by
  have hne : ∀ a n, ((w.put id c).caller a).phase = .holding n → a ≠ id ∧
      (w.put id c).caller a = w.caller a := by
    intro a n hn
    have ha : a ≠ id := by
      rintro rfl
      simp only [FencingWorld.put,Function.update_self] at hn
      simp [Caller.token,hn] at hnew
    exact ⟨ha,Function.update_of_ne ha _ _⟩
  have hacc : ∀ a ∈ w.accepted, (w.put id c).caller a = w.caller a := by
    intro a ha
    obtain ⟨n,hn,-⟩ := h.marked a ha
    have hid : a ≠ id := by
      rintro rfl
      simp [Caller.token,hn] at hold
    exact Function.update_of_ne hid _ _
  refine ⟨h.counter,?_,?_,?_,⟨?_,?_⟩,?_⟩
  · intro a n hn
    obtain ⟨-,he⟩ := hne a n hn
    rw [he] at hn
    exact h.issued a n hn
  · intro a n hn
    obtain ⟨-,he⟩ := hne a n hn
    rw [he] at hn ⊢
    exact h.drawn a n hn
  · intro a hn
    by_cases ha : a = id
    · subst a
      simp only [FencingWorld.put,Function.update_self] at hn
      exact hacq hn
    · simp only [FencingWorld.put,Function.update_of_ne ha] at hn
      exact h.acquired a hn
  · intro a b m n hm hn hr ht
    obtain ⟨-,hea⟩ := hne a m hm
    obtain ⟨-,heb⟩ := hne b n hn
    rw [hea] at hm hr ht
    rw [heb] at hn hr ht
    exact h.fenced.tokens a b m n hm hn hr ht
  · refine h.fenced.writes.imp_of_mem fun {a b} ha hb hab => ?_
    rw [hacc a ha,hacc b hb]
    exact hab
  · intro a ha
    rw [hacc a ha]
    exact h.marked a ha

private theorem Ordered.granted {w : FencingWorld} (h : Ordered w) (id : Nat) (r : String)
    (e : RedisEntry) : Ordered { w with
      redis := Function.update w.redis (lockKeyFor r) (some e), issued := id::w.issued } := by
  have hkey : ∀ q, Function.update w.redis (lockKeyFor r) (some e) (fencingCounterKeyFor q) =
      w.redis (fencingCounterKeyFor q) :=
    fun q => Function.update_of_ne (lockKeyFor_ne_counter r q).symm _ _
  refine ⟨?_,?_,?_,?_,⟨h.fenced.tokens,h.fenced.writes⟩,h.marked⟩
  · intro q e' he
    exact h.counter q e' ((hkey q).symm.trans he)
  · intro a n hn
    exact List.mem_cons_of_mem _ (h.issued a n hn)
  · intro a n hn
    obtain ⟨k,hk,hle⟩ := h.drawn a n hn
    exact ⟨k,(hkey _).trans hk,hle⟩
  · intro a ha
    exact List.mem_cons_of_mem _ (h.acquired a ha)

/-- The draw: its token tops every token of the resource, so it must come from the last of
the acquirers that hold one. -/
theorem Ordered.drew {w w' : FencingWorld} (h : Ordered w) {id : Nat} {n : Int}
    (hacq : (w.caller id).phase = .acquired) (hturn : InTurn w (.incr id))
    (htop : ∀ k e, w.redis (fencingCounterKeyFor (w.caller id).resource) =
      some ⟨.counter k,e⟩ → k < n)
    (hself : w'.caller id = { w.caller id with phase := .holding n })
    (hother : ∀ a, a ≠ id → w'.caller a = w.caller a)
    (hcounter : w'.redis (fencingCounterKeyFor (w.caller id).resource) =
      some ⟨.counter n,none⟩)
    (hkeys : ∀ r, r ≠ (w.caller id).resource →
      w'.redis (fencingCounterKeyFor r) = w.redis (fencingCounterKeyFor r))
    (hissued : w'.issued = w.issued) (haccepted : w'.accepted = w.accepted)
    (hstate : w'.resourceState = w.resourceState) : Ordered w' := by
  have hbelow : ∀ a m, (w.caller a).phase = .holding m →
      (w.caller a).resource = (w.caller id).resource → m < n := by
    intro a m hm hr
    obtain ⟨k,hk,hle⟩ := h.drawn a m hm
    rw [hr] at hk
    have := htop k none hk
    omega
  have hacc : ∀ a ∈ w.accepted, a ≠ id := by
    rintro a ha rfl
    obtain ⟨m,hm,-⟩ := h.marked a ha
    rw [hacq] at hm
    cases hm
  refine ⟨?_,?_,?_,?_,⟨?_,?_⟩,?_⟩
  · intro r e he
    by_cases hr : r = (w.caller id).resource
    · subst hr
      rw [hcounter] at he
      cases he
      rfl
    · rw [hkeys r hr] at he
      exact h.counter r e he
  · intro a m hm
    rw [hissued]
    by_cases ha : a = id
    · subst ha
      exact h.acquired _ hacq
    · rw [hother a ha] at hm
      exact h.issued a m hm
  · intro a m hm
    by_cases ha : a = id
    · subst ha
      rw [hself] at hm ⊢
      cases hm
      exact ⟨n,hcounter,le_rfl⟩
    · rw [hother a ha] at hm ⊢
      by_cases hr : (w.caller a).resource = (w.caller id).resource
      · rw [hr]
        exact ⟨n,hcounter,le_of_lt (hbelow a m hm hr)⟩
      · rw [hkeys _ hr]
        exact h.drawn a m hm
  · intro a ha
    rw [hissued]
    by_cases hid : a = id
    · subst hid
      exact h.acquired _ hacq
    · rw [hother a hid] at ha
      exact h.acquired a ha
  · intro a b m k hm hk hr ht
    by_cases ha : a = id <;> by_cases hb : b = id
    · subst ha hb
      omega
    · subst ha
      rw [hother b hb] at hk hr ht
      rw [hself] at hr ht
      have hnone := hturn b (h.issued b k hk) hr.symm ht
      simp [Caller.token,hk] at hnone
    · subst hb
      rw [hother a ha] at hm hr
      rw [hself] at hk hr
      cases hk
      exact hbelow a m hm hr
    · rw [hother a ha] at hm hr ht
      rw [hother b hb] at hk hr ht
      exact h.fenced.tokens a b m k hm hk hr ht
  · rw [haccepted]
    refine h.fenced.writes.imp_of_mem fun {a b} ha hb hab => ?_
    rw [hother a (hacc a ha),hother b (hacc b hb)]
    exact hab
  · intro a ha
    rw [haccepted] at ha
    rw [hother a (hacc a ha),hstate]
    exact h.marked a ha

/-- A fenced write: had a later acquirer's write been accepted, no row of the resource would
hold a smaller token. -/
theorem Ordered.wrote {w : FencingWorld} (h : Ordered w) {id : Nat} {n : Int} (writer : String)
    (hn : (w.caller id).phase = .holding n) :
    let r := writeResourceStateFenced w.resourceState (w.caller id).resource writer n
    Ordered { w with
      resourceState := r.1, accepted := if r.2 = 0 then w.accepted else id::w.accepted } := by
  intro r
  have hkeep : ∀ a ∈ w.accepted, ∃ m, (w.caller a).phase = .holding m ∧
      ∀ row ∈ r.1, row.name = (w.caller a).resource → m ≤ row.fencingToken := by
    intro a ha
    obtain ⟨m,hm,hrows⟩ := h.marked a ha
    exact ⟨m,hm,writeResourceStateFenced_ge hrows⟩
  refine ⟨h.counter,h.issued,h.drawn,h.acquired,⟨h.fenced.tokens,?_⟩,?_⟩
  · by_cases hc : r.2 = 0
    · rw [if_pos hc]
      exact h.fenced.writes
    · rw [if_neg hc]
      refine h.fenced.writes.cons ?_
      intro a ha hr ht
      obtain ⟨m,hm,hrows⟩ := h.marked a ha
      obtain ⟨row,hrow,hname,hless⟩ := writeResourceStateFenced_count hc
      have hmrow := hrows row hrow (hname.trans hr)
      have hnm := h.fenced.tokens id a n m hn hm hr ht
      omega
  · intro a ha
    by_cases hc : r.2 = 0
    · rw [if_pos hc] at ha
      exact hkeep a ha
    · rw [if_neg hc] at ha
      cases ha with
      | head => exact ⟨n,hn,writeResourceStateFenced_own _ _ _ _⟩
      | tail _ ha => exact hkeep a ha

private theorem Ordered.wroteUnlocked {w : FencingWorld} (h : Ordered w) (name writer : String)
    (n : Int) : Ordered { w with
      resourceState := (writeResourceStateFenced w.resourceState name writer n).1 } := by
  refine ⟨h.counter,h.issued,h.drawn,h.acquired,⟨h.fenced.tokens,h.fenced.writes⟩,?_⟩
  intro a ha
  obtain ⟨m,hm,hrows⟩ := h.marked a ha
  exact ⟨m,hm,writeResourceStateFenced_ge hrows⟩

theorem Ordered.step {w w' : FencingWorld} {e : FencingEvent} (h : Ordered w)
    (hturn : InTurn w e) (hs : fencingStep w e = some w') : Ordered w' := by
  cases fencingStep_move hs with
  | denied ph hidle hph =>
    apply h.put
    · simp [Caller.token,hidle]
    · rcases hph with rfl | rfl <;> rfl
    · rcases hph with rfl | rfl <;> nofun
  | granted hidle _ =>
    apply (h.granted _ _ _).put
    · simp [Caller.token,hidle]
    · rfl
    · exact fun _ => List.mem_cons_self
  | incrFailed hacq =>
    apply h.put
    · simp [Caller.token,hacq]
    · rfl
    · nofun
  | drew redis n hacq hincr =>
    obtain ⟨rfl,htop⟩ := Keyspace.incr_persistent (h.counter _) hincr
    apply h.drew hacq hturn htop
    · exact Function.update_self _ _ _
    · exact fun a ha => Function.update_of_ne ha _ _
    · exact Function.update_self _ _ _
    · exact fun r hr => Function.update_of_ne (mt fencingCounterKeyFor_inj.mp hr) _ _
    · rfl
    · rfl
    · rfl
  | wrote n hn => exact h.wrote _ hn
  | wroteUnlocked _ => exact h.wroteUnlocked _ _ _
  | advanced ms =>
    exact ⟨h.counter,h.issued,h.drawn,h.acquired,⟨h.fenced.tokens,h.fenced.writes⟩,h.marked⟩

/-- Some later acquirer holds a token no larger than an earlier one's. -/
def Overtaken (w : FencingWorld) : Prop :=
  ∃ a b m n, (w.caller a).phase = .holding m ∧ (w.caller b).phase = .holding n ∧
    (w.caller a).resource = (w.caller b).resource ∧ (w.caller a).turn < (w.caller b).turn ∧ n ≤ m

private theorem Overtaken.not_fenced {w : FencingWorld} (h : Overtaken w) : ¬ Fenced w := by
  obtain ⟨a,b,m,n,hm,hn,hr,ht,hle⟩ := h
  intro hf
  have := hf.tokens a b m n hm hn hr ht
  omega

private theorem fencingStep_holding {w w' : FencingWorld} {e : FencingEvent} {a : Nat} {n : Int}
    (ha : (w.caller a).phase = .holding n) (hs : fencingStep w e = some w') :
    w'.caller a = w.caller a := by
  have hne : ∀ id, (w.caller id).phase ≠ .holding n → a ≠ id := by
    rintro id hid rfl
    exact hid ha
  cases fencingStep_move hs with
  | denied ph hidle _ => exact Function.update_of_ne (hne _ (by simp [hidle])) _ _
  | granted hidle _ => exact Function.update_of_ne (hne _ (by simp [hidle])) _ _
  | incrFailed hacq => exact Function.update_of_ne (hne _ (by simp [hacq])) _ _
  | drew _ _ hacq _ => exact Function.update_of_ne (hne _ (by simp [hacq])) _ _
  | wrote _ _ => rfl
  | wroteUnlocked _ => rfl
  | advanced _ => rfl

theorem Overtaken.step {w w' : FencingWorld} {e : FencingEvent} (h : Overtaken w)
    (hs : fencingStep w e = some w') : Overtaken w' := by
  obtain ⟨a,b,m,n,hm,hn,hrest⟩ := h
  refine ⟨a,b,m,n,?_⟩
  rw [fencingStep_holding hm hs,fencingStep_holding hn hs]
  exact ⟨hm,hn,hrest⟩

private theorem Ordered.overtaken {w w' : FencingWorld} {e : FencingEvent} (h : Ordered w)
    (hturn : ¬ InTurn w e) (hs : fencingStep w e = some w') : Overtaken w' := by
  cases e with
  | setNx | write | advance => exact absurd trivial hturn
  | incr id =>
    simp only [InTurn,not_forall] at hturn
    obtain ⟨b,_,hr,ht,hb⟩ := hturn
    have hholding : ∃ k, (w.caller b).phase = .holding k := by
      cases hp : (w.caller b).phase with
      | holding k => exact ⟨k,rfl⟩
      | _ => simp [Caller.token,hp] at hb
    obtain ⟨k,hk⟩ := hholding
    obtain ⟨j,hj,hkj⟩ := h.drawn b k hk
    rw [hr] at hj
    cases fencingStep_move hs with
    | incrFailed hacq =>
      simp only [fencingStep,hacq,Keyspace.incr,Keyspace.lookup_persistent (h.counter _),hj] at hs
      have hp := congrArg (fun o => o.map fun w => (w.caller id).phase) hs
      simp [FencingWorld.put] at hp
    | drew redis n hacq hincr =>
      obtain ⟨rfl,htop⟩ := Keyspace.incr_persistent (h.counter _) hincr
      have hbid : b ≠ id := by
        rintro rfl
        omega
      have hself : (w.put id { w.caller id with phase := .holding n }).caller id =
          { w.caller id with phase := .holding n } := Function.update_self _ _ _
      have hother : (w.put id { w.caller id with phase := .holding n }).caller b = w.caller b :=
        Function.update_of_ne hbid _ _
      have hlt := htop j none hj
      refine ⟨id,b,n,k,?_,?_,?_,?_,by omega⟩
      · exact congrArg Caller.phase hself
      · exact (congrArg Caller.phase hother).trans hk
      · exact (congrArg Caller.resource hself).trans (hr.symm.trans
          (congrArg Caller.resource hother).symm)
      · exact (congrArg Caller.turn hself).trans_lt (ht.trans_eq
          (congrArg Caller.turn hother).symm)

/-- Tokens and accepted writes follow the acquisitions exactly in the runs whose draws are
all in turn. -/
theorem fenced_iff_inTurn {w w' : FencingWorld} (hw : w.Fresh) {es : List FencingEvent}
    (hrun : run fencingStep w es = some w') : Fenced w' ↔ Along fencingStep InTurn w es :=
  run_property_iff_along (fun _ _ _ h hok hs => h.step hok hs)
    (fun _ _ _ h hok hs => h.overtaken hok hs) (fun _ _ _ h hs => h.step hs)
    (fun _ h => h.fenced) (fun _ h => h.not_fenced) (ordered_of_fresh hw) hrun

/-- A client stalls between its two commands: its lease of 10 ms lapses, another client
acquires, draws and writes, and only then does the first one draw. -/
def stalledDraw : List FencingEvent :=
  [.setNx 0 "r" "a" 10, .advance 10, .setNx 1 "r" "b" 10, .incr 1, .write 1 "b", .incr 0,
    .write 0 "a"]

def oneResource : FencingWorld where
  redis := fun _ => none
  resourceState := [⟨"r",0,none⟩]
  clock := 0

private theorem oneResource_fresh : oneResource.Fresh :=
  ⟨rfl,rfl,rfl,nofun⟩

theorem stalledDraw_not_fenced : ∃ w, run fencingStep oneResource stalledDraw = some w ∧
    (w.caller 0).turn < (w.caller 1).turn ∧ (w.caller 0).token = some 2 ∧
      (w.caller 1).token = some 1 ∧ w.accepted = [0, 1] ∧ ¬ Fenced w := by
  obtain ⟨w,hw⟩ := Option.isSome_iff_exists.mp
    (show (run fencingStep oneResource stalledDraw).isSome = true by decide)
  have hobs : (run fencingStep oneResource stalledDraw).map
      (fun w => (w.caller 0,w.caller 1,w.accepted)) =
      some (⟨"r",.holding 2,0,10⟩,⟨"r",.holding 1,1,20⟩,[0, 1]) := by decide
  rw [hw] at hobs
  simp only [Option.map_some,Option.some.injEq,Prod.mk.injEq] at hobs
  obtain ⟨h0,h1,hacc⟩ := hobs
  refine ⟨w,hw,?_,?_,?_,hacc,?_⟩
  · rw [h0,h1]
    decide
  · rw [h0]
    rfl
  · rw [h1]
    rfl
  · apply Overtaken.not_fenced
    refine ⟨0,1,2,1,?_⟩
    rw [h0,h1]
    decide

/-- The same two clients with the first one drawing before the second. -/
theorem promptDraw_fenced : ∃ w, run fencingStep oneResource
    [.setNx 0 "r" "a" 10, .incr 0, .advance 10, .setNx 1 "r" "b" 10, .incr 1, .write 1 "b",
      .write 0 "a"] = some w ∧ Fenced w := by
  obtain ⟨w,hw⟩ := Option.isSome_iff_exists.mp (show (run fencingStep oneResource
    [.setNx 0 "r" "a" 10, .incr 0, .advance 10, .setNx 1 "r" "b" 10, .incr 1, .write 1 "b",
      .write 0 "a"]).isSome = true by decide)
  exact ⟨w,hw,(fenced_iff_inTurn oneResource_fresh hw).mpr (by decide)⟩

end SystemsLab.Locks
