import SystemsLab.Framework.Windows
import SystemsLab.Backpressure.SlowDownstream

/-!
# How many calls get through, and how long they wait

If no call works for less than `ms`, a window of `ms` sees at most `capacity` calls begin. If none
works for more than `ms` and every slot is given back on time, a call that finds `found` others in
line waits for at most `found / capacity + 1` times `ms`. What counts is the delay of the timer: an
`acquireTimeoutMs` beyond its range makes a caller give up after one millisecond.
-/

namespace SystemsLab.Backpressure

/-- When the call gives its slot back. -/
def DownstreamCall.due (c : DownstreamCall) : Option Int :=
  match c.phase with
  | .working since => some (since + timerDelay c.workMs)
  | _ => none

/-- No call works for less than `ms`. -/
def Slow (ms : Nat) (_ : DownstreamWorld) : DownstreamEvent → Prop
  | .callSlowDownstream _ workMs _ => ms ≤ timerDelay workMs
  | _ => True

/-- No call works for more than `ms`, and the clock does not pass the end of one that works. -/
def OnTime (ms : Nat) (w : DownstreamWorld) : DownstreamEvent → Prop
  | .callSlowDownstream _ workMs _ => timerDelay workMs ≤ ms
  | .advance passed => ∀ n ∈ w.inFlight, ∀ c ∈ w.call n, ∀ t ∈ c.due, w.clock + passed ≤ t
  | _ => True

instance (ms : Nat) (w : DownstreamWorld) (e : DownstreamEvent) : Decidable (Slow ms w e) :=
  match e with
  | .callSlowDownstream _ workMs _ => inferInstanceAs (Decidable ((ms : Int) ≤ timerDelay workMs))
  | .finish _ | .timeOut _ | .advance _ => .isTrue trivial

instance (ms : Nat) (w : DownstreamWorld) (e : DownstreamEvent) : Decidable (OnTime ms w e) :=
  match e with
  | .callSlowDownstream _ workMs _ => inferInstanceAs (Decidable (timerDelay workMs ≤ ms))
  | .advance passed => inferInstanceAs (Decidable (∀ n ∈ w.inFlight, ∀ c ∈ w.call n, ∀ t ∈ c.due,
      w.clock + passed ≤ t))
  | .finish _ | .timeOut _ => .isTrue trivial

namespace DownstreamWorld

/-- When calls began to work. -/
def begun (w : DownstreamWorld) : List Int := w.granted.map Prod.snd

end DownstreamWorld

/-- How long a call may have to wait if none works for more than `ms`. -/
def DownstreamCall.patience (c : DownstreamCall) (capacity ms : Nat) : Nat :=
  (c.found / capacity + 1) * ms

variable {w w' : DownstreamWorld} {e : DownstreamEvent} {capacity ms n : Nat} {c d : DownstreamCall}

namespace DownstreamWorld.Sound

theorem clock_move (h : w.Sound capacity) (hmove : DownstreamMove w e w') :
    w'.clock = w.clock ∨
      ∃ passed : Nat, e = .advance passed ∧ w' = { w with clock := w.clock + passed } := by
  cases hmove with
  | advanced passed => exact .inr ⟨passed,rfl,rfl⟩
  | handedOver n c since entry rest hc hphase _ hqueue =>
    obtain ⟨d,_,_,_,hfinish⟩ := h.finish_eq hc hphase hqueue
    rw [hfinish]
    exact .inl rfl
  | admitted | queued | released | timedOut => exact .inl rfl

private theorem clock_le (h : w.Sound capacity) (hmove : DownstreamMove w e w') :
    w.clock ≤ w'.clock := by
  rcases h.clock_move hmove with heq | ⟨passed,_,rfl⟩
  · exact Int.le_of_eq heq.symm
  · exact Int.le_add_of_nonneg_right (Int.natCast_nonneg passed)

theorem granted_move (h : w.Sound capacity) (hmove : DownstreamMove w e w') :
    w'.granted = w.granted ∨
      ∃ m, w'.granted = w.granted ++ [(m,w.clock)] ∧ w'.clock = w.clock ∧ m ∈ w'.inFlight ∧
        ∀ c, w.call m = some c → c.phase = .waiting := by
  cases hmove with
  | advanced | queued | released | timedOut => exact .inl rfl
  | admitted n c hnone =>
    refine .inr ⟨n,rfl,rfl,List.mem_append_right _ (List.mem_singleton_self n),fun c hc => ?_⟩
    rw [hnone] at hc
    cases hc
  | handedOver n c since entry rest hc hphase _ hqueue =>
    obtain ⟨d,_,hd,hwaiting,hfinish⟩ := h.finish_eq hc hphase hqueue
    rw [hfinish]
    exact .inr ⟨entry.caller,rfl,rfl,List.mem_append_right _ (List.mem_singleton_self _),
      forall_of_eq_some hd hwaiting⟩

theorem left_move (h : w.Sound capacity) (hmove : DownstreamMove w e w') (hin : n ∈ w.inFlight)
    (hout : n ∉ w'.inFlight) : ∃ c since, w.call n = some c ∧ c.phase = .working since ∧
      since + timerDelay c.workMs ≤ w.clock := by
  cases hmove with
  | advanced | queued | timedOut => exact absurd hin hout
  | admitted => exact absurd (List.mem_append_left _ hin) hout
  | released m c since hc hphase hdone hqueue =>
    by_cases hnm : n = m
    · subst hnm
      exact ⟨c,since,hc,hphase,hdone⟩
    · exact absurd ((h.mem_erase_iff hnm).mpr hin) hout
  | handedOver m c since entry rest hc hphase hdone hqueue =>
    obtain ⟨d,_,_,_,hfinish⟩ := h.finish_eq hc hphase hqueue
    rw [hfinish] at hout
    by_cases hnm : n = m
    · subst hnm
      exact ⟨c,since,hc,hphase,hdone⟩
    · exact absurd (List.mem_append_left _ ((h.mem_erase_iff hnm).mpr hin)) hout

theorem call_move (h : w.Sound capacity) (hmove : DownstreamMove w e w')
    (hd : w'.call n = some d) :
    (w.call n = none ∧ e = .callSlowDownstream n d.workMs d.acquireTimeoutMs ∧
      d.startedAt = w.clock ∧ d.found = w.resource.waitQueue.length) ∨
      ∃ c, w.call n = some c ∧ d = { c with phase := d.phase } := by
  cases hmove with
  | advanced => exact .inr ⟨d,hd,rfl⟩
  | admitted m c hnone _ hstarted hfound | queued m c hnone _ hstarted hfound =>
    rcases update_eq_some hd with ⟨rfl,rfl⟩ | ⟨_,hd⟩
    · exact .inl ⟨hnone,rfl,hstarted,hfound⟩
    · exact .inr ⟨d,hd,rfl⟩
  | released m c _ hc | timedOut m c hc =>
    rcases update_eq_some hd with ⟨rfl,rfl⟩ | ⟨_,hd⟩
    · exact .inr ⟨c,hc,rfl⟩
    · exact .inr ⟨d,hd,rfl⟩
  | handedOver m c since entry rest hc hphase _ hqueue =>
    obtain ⟨f,_,hf,_,hfinish⟩ := h.finish_eq hc hphase hqueue
    rw [hfinish] at hd
    rcases update_eq_some hd with ⟨rfl,rfl⟩ | ⟨_,hd⟩
    · exact .inr ⟨f,hf,rfl⟩
    · rcases update_eq_some hd with ⟨rfl,rfl⟩ | ⟨_,hd⟩
      · exact .inr ⟨c,hc,rfl⟩
      · exact .inr ⟨d,hd,rfl⟩

theorem works_move {P : Int → Prop} (h : w.Sound capacity) (hmove : DownstreamMove w e w')
    (hnew : ∀ m workMs acquireTimeoutMs,
      e = .callSlowDownstream m workMs acquireTimeoutMs → P (timerDelay workMs))
    (hold : ∀ m c, w.call m = some c → P (timerDelay c.workMs)) (hd : w'.call n = some d) :
    P (timerDelay d.workMs) := by
  rcases h.call_move hmove hd with ⟨_,he,_⟩ | ⟨c,hc,heq⟩
  · exact hnew n _ _ he
  · rw [heq]
    exact hold n c hc

theorem working_move (h : w.Sound capacity) (hmove : DownstreamMove w e w')
    (hd : w'.call n = some d) {since : Int} (hphase : d.phase = .working since) :
    w.call n = some d ∨ since = w.clock := by
  cases hmove with
  | advanced => exact .inl hd
  | admitted m c =>
    rcases update_eq_some hd with ⟨rfl,rfl⟩ | ⟨_,hd⟩
    · cases hphase
      exact .inr rfl
    · exact .inl hd
  | queued m c _ _ _ _ hwaiting =>
    rcases update_eq_some hd with ⟨rfl,rfl⟩ | ⟨_,hd⟩
    · rw [hwaiting] at hphase
      cases hphase
    · exact .inl hd
  | released | timedOut =>
    rcases update_eq_some hd with ⟨rfl,rfl⟩ | ⟨_,hd⟩
    · cases hphase
    · exact .inl hd
  | handedOver m c since' entry rest hc hworking _ hqueue =>
    obtain ⟨f,_,_,_,hfinish⟩ := h.finish_eq hc hworking hqueue
    rw [hfinish] at hd
    rcases update_eq_some hd with ⟨rfl,rfl⟩ | ⟨_,hd⟩
    · cases hphase
      exact .inr rfl
    · rcases update_eq_some hd with ⟨rfl,rfl⟩ | ⟨_,hd⟩
      · cases hphase
      · exact .inl hd

theorem threw_move (h : w.Sound capacity) (hmove : DownstreamMove w e w')
    (hd : w'.call n = some d) {error : String} (hphase : d.phase = .threw error) :
    w.call n = some d ∨ ∃ c, w.call n = some c ∧ c.phase = .waiting ∧
      d = { c with phase := d.phase } ∧ c.startedAt + timerDelay c.acquireTimeoutMs ≤ w.clock := by
  cases hmove with
  | advanced => exact .inl hd
  | queued m c _ _ _ _ hwaiting =>
    rcases update_eq_some hd with ⟨rfl,rfl⟩ | ⟨_,hd⟩
    · rw [hwaiting] at hphase
      cases hphase
    · exact .inl hd
  | admitted | released =>
    rcases update_eq_some hd with ⟨rfl,rfl⟩ | ⟨_,hd⟩
    · cases hphase
    · exact .inl hd
  | handedOver m c since entry rest hc hworking _ hqueue =>
    obtain ⟨f,_,_,_,hfinish⟩ := h.finish_eq hc hworking hqueue
    rw [hfinish] at hd
    rcases update_eq_some hd with ⟨rfl,rfl⟩ | ⟨_,hd⟩
    · cases hphase
    · rcases update_eq_some hd with ⟨rfl,rfl⟩ | ⟨_,hd⟩
      · cases hphase
      · exact .inl hd
  | timedOut m c hc hwaiting hdue =>
    rcases update_eq_some hd with ⟨rfl,rfl⟩ | ⟨_,hd⟩
    · exact .inr ⟨c,hc,hwaiting,rfl,hdue⟩
    · exact .inl hd

private theorem granted_nodup (h : w.Sound capacity) : (w.granted.map Prod.fst).Nodup :=
  h.queue_nodup.of_append_left

theorem granted_unique (h : w.Sound capacity) {s t : Int} (hs : (n,s) ∈ w.granted)
    (ht : (n,t) ∈ w.granted) : s = t :=
  congrArg Prod.snd (List.inj_on_of_nodup_map h.granted_nodup hs ht rfl)

end DownstreamWorld.Sound

structure DownstreamWorld.Paced (w : DownstreamWorld) (capacity ms : Nat) : Prop where
  sound : w.Sound capacity
  works : ∀ n c, w.call n = some c → (ms : Int) ≤ timerDelay c.workMs
  finished : ∀ n t, (n,t) ∈ w.granted → n ∉ w.inFlight → t + ms ≤ w.clock
  windows : ∀ s, between s (s + ms) w.begun ≤ capacity

namespace DownstreamWorld.Paced

theorem start (capacity ms : Nat) (clock : Int) : (fresh capacity clock).Paced capacity ms where
  sound := .start capacity clock
  works := nofun
  finished := nofun
  windows _ := Nat.zero_le _

theorem finished_move (h : w.Paced capacity ms) (hmove : DownstreamMove w e w') {t : Int}
    (ht : (n,t) ∈ w'.granted) (hout : n ∉ w'.inFlight) : t + ms ≤ w'.clock := by
  have hclock := h.sound.clock_le hmove
  have hold : (n,t) ∈ w.granted := by
    rcases h.sound.granted_move hmove with heq | ⟨m,heq,_,hm,_⟩
    · rwa [heq] at ht
    · rw [heq,List.mem_append,List.mem_singleton] at ht
      refine ht.resolve_right fun hlast => hout ?_
      cases hlast
      exact hm
  by_cases hin : n ∈ w.inFlight
  · obtain ⟨c,since,hc,hphase,hdone⟩ := h.sound.left_move hmove hin hout
    have hsince := (h.sound.calls n c hc).granted since hphase
    rw [h.sound.granted_unique hold hsince]
    have hworks := h.works n c hc
    omega
  · have hdone := h.finished n t hold hin
    omega

theorem move (h : w.Paced capacity ms) (hslow : Slow ms w e) (hmove : DownstreamMove w e w') :
    w'.Paced capacity ms := by
  have hsound := h.sound.move hmove
  have hfinished : ∀ m t, (m,t) ∈ w'.granted → m ∉ w'.inFlight → t + ms ≤ w'.clock :=
    fun _ _ => h.finished_move hmove
  refine ⟨hsound,fun m d hd => ?_,hfinished,fun s => ?_⟩
  · refine h.sound.works_move (P := (ms ≤ ·)) hmove ?_ h.works hd
    rintro k workMs acquireTimeoutMs rfl
    exact hslow
  · rcases h.sound.granted_move hmove with heq | ⟨m,heq,hclock,_,_⟩
    · rw [begun,heq]
      exact h.windows s
    · by_cases hwindow : s < w.clock ∧ w.clock ≤ s + ms
      · have hcount : between s (s + ms) w'.begun ≤ w'.inFlight.length := by
          refine between_le_length hsound.granted_nodup fun k t hk hst hts => ?_
          by_contra hout
          have hlate := hfinished k t hk hout
          omega
        have hslots := hsound.slots
        omega
      · have hzero : between s (s + ms) [w.clock] = 0 := between_singleton_of_not hwindow
        rw [begun,heq,List.map_append,between_append]
        change between s (s + ms) w.begun + between s (s + ms) [w.clock] ≤ capacity
        rw [hzero]
        exact h.windows s

theorem reachable {clock : Int}
    (h : ReachableBy downstreamStep (· = fresh capacity clock) (Slow ms) w) :
    w.Paced capacity ms := by
  apply ReachableBy.invariant (s := w) ?_ ?_ h
  · rintro s rfl
    exact start capacity ms clock
  · exact fun _ _ _ hs hslow hstep => hs.move hslow (downstreamStep_move hstep)

end DownstreamWorld.Paced

/-- However many callers there are, `k` windows of the time that a call takes at least see at most
`k * capacity` of them begin to work. -/
theorem callSlowDownstream_throughput {clock : Int}
    (h : ReachableBy downstreamStep (· = .fresh capacity clock) (Slow ms) w) (s : Int) (k : Nat) :
    between s (s + (k * ms : Nat)) w.begun ≤ k * capacity :=
  between_le_mul (DownstreamWorld.Paced.reachable h).windows s k

/-- One slot, two callers that work for 10 ms each. -/
def twoDownstreamCalls : List DownstreamEvent :=
  [.callSlowDownstream 0 10 100,.callSlowDownstream 1 10 100,.advance 10,.finish 0]

theorem callSlowDownstream_throughput_two : ∃ w : DownstreamWorld, w.begun = [0,10] ∧
    between (-1) (-1 + (1 * 10 : Nat)) w.begun ≤ 1 * 1 := by
  have hend : (run downstreamStep (.fresh 1 0) twoDownstreamCalls).any (·.begun == [0,10]) = true := by
    decide
  obtain ⟨w,hrun,hbegun,_⟩ := exists_run_of_any hend
  have halong : Along downstreamStep (Slow 10) (.fresh 1 0) twoDownstreamCalls := by decide
  have hreachable : ReachableBy downstreamStep (· = .fresh 1 0) (Slow 10) w :=
    ReachableBy.run (.start rfl) halong hrun
  exact ⟨w,eq_of_beq hbegun,callSlowDownstream_throughput hreachable (-1) 1⟩

/-- What is known of a call that waits: its place, and that no window has passed since it came in
which not every slot was handed out. -/
structure DownstreamCall.Waits (w : DownstreamWorld) (capacity ms n : Nat) (c : DownstreamCall) :
    Prop where
  place : after c.startedAt w.begun + (w.resource.waitQueue.map Waiter.caller).idxOf n ≤ c.found
  windows : ∀ s, c.startedAt ≤ s → s + ms < w.clock → capacity ≤ between s (s + ms) w.begun

/-- No call waits for longer than its `patience`. -/
structure DownstreamCall.Served (w : DownstreamWorld) (capacity ms n : Nat) (c : DownstreamCall) :
    Prop where
  waiting : c.phase = .waiting → w.clock ≤ c.startedAt + c.patience capacity ms
  granted : ∀ t, (n,t) ∈ w.granted → t ≤ c.startedAt + c.patience capacity ms
  rejected : ∀ error, c.phase = .threw error →
    timerDelay c.acquireTimeoutMs ≤ c.patience capacity ms

/-- If `found / capacity + 1` windows had passed, more slots would have been handed out than there
were callers ahead. -/
theorem DownstreamCall.Waits.le (h : c.Waits w capacity ms n) (hcap : 0 < capacity) :
    w.clock ≤ c.startedAt + c.patience capacity ms := by
  by_contra hlate
  have hmany := mul_le_after (k := c.found / capacity + 1) h.windows (Int.not_le.mp hlate)
  have hplace := h.place
  have hfew : c.found < (c.found / capacity + 1) * capacity := by
    rw [Nat.mul_comm]
    exact Nat.lt_mul_div_succ c.found hcap
  omega

structure DownstreamWorld.Prompt (w : DownstreamWorld) (capacity ms : Nat) : Prop where
  sound : w.Sound capacity
  works : ∀ n c, w.call n = some c → timerDelay c.workMs ≤ ms
  past : ∀ t ∈ w.begun, t ≤ w.clock
  due : ∀ n c since, w.call n = some c → c.phase = .working since → w.clock ≤ since + ms
  waits : ∀ n c, w.call n = some c → c.phase = .waiting → c.Waits w capacity ms n
  served : ∀ n c, w.call n = some c → c.Served w capacity ms n

/-- Slots handed out bring the caller forward, and nothing puts it back. -/
theorem DownstreamCall.Waits.keep (h : c.Waits w capacity ms n) (hclock : w'.clock = w.clock)
    {more : List Int} (hbegun : w'.begun = w.begun ++ more)
    (hplace : more.length + (w'.resource.waitQueue.map Waiter.caller).idxOf n ≤
      (w.resource.waitQueue.map Waiter.caller).idxOf n) : c.Waits w' capacity ms n where
  place := by
    have hmore : after c.startedAt more ≤ more.length := List.countP_le_length
    have hold := h.place
    rw [hbegun,after_append]
    omega
  windows s hs hpassed := by
    rw [hclock] at hpassed
    rw [hbegun]
    exact Nat.le_trans (h.windows s hs hpassed) (between_le_append _ _ _ _)

namespace DownstreamWorld.Prompt

theorem start (capacity ms : Nat) (clock : Int) : (fresh capacity clock).Prompt capacity ms where
  sound := .start capacity clock
  works := nofun
  past := nofun
  due := nofun
  waits := nofun
  served := nofun

private theorem mem_queue (h : w.Prompt capacity ms) (hc : w.call n = some c)
    (hphase : c.phase = .waiting) :
    n ∈ w.resource.waitQueue.map Waiter.caller := (h.sound.calls n c hc).waiting.mpr hphase

theorem past_move (h : w.Prompt capacity ms) (hmove : DownstreamMove w e w') :
    ∀ t ∈ w'.begun, t ≤ w'.clock := by
  intro t ht
  have hclock := h.sound.clock_le hmove
  rcases h.sound.granted_move hmove with heq | ⟨m,heq,_⟩
  · rw [begun,heq] at ht
    exact Int.le_trans (h.past t ht) hclock
  · rw [begun,heq,List.map_append,List.mem_append] at ht
    rcases ht with ht | ht
    · exact Int.le_trans (h.past t ht) hclock
    · rw [List.mem_singleton.mp ht]
      exact hclock

theorem due_move (h : w.Prompt capacity ms) (hok : OnTime ms w e) (hmove : DownstreamMove w e w')
    {since : Int} (hd : w'.call n = some d) (hphase : d.phase = .working since) :
    w'.clock ≤ since + ms := by
  rcases h.sound.clock_move hmove with heq | ⟨passed,rfl,rfl⟩
  · rw [heq]
    rcases h.sound.working_move hmove hd hphase with hc | rfl
    · exact h.due n d since hc hphase
    · exact Int.le_add_of_nonneg_right (Int.natCast_nonneg ms)
  · have hin : n ∈ w.inFlight := (h.sound.calls n d hd).inFlight.mpr ⟨since,hphase⟩
    have hdue : since + timerDelay d.workMs ∈ d.due := by
      rw [DownstreamCall.due,hphase]
      exact rfl
    have hend := hok n hin d hd _ hdue
    have hworks := h.works n d hd
    change w.clock + passed ≤ since + ms
    omega

/-- While somebody waits, every slot is handed out in each window that passes. -/
theorem windows_advance (h : w.Prompt capacity ms) {passed : Nat}
    (hok : OnTime ms w (.advance passed)) (hc : w.call n = some c) (hphase : c.phase = .waiting)
    (s : Int) (hs : c.startedAt ≤ s) (hpassed : s + ms < w.clock + passed) :
    capacity ≤ between s (s + ms) w.begun := by
  by_cases hold : s + ms < w.clock
  · exact (h.waits n c hc hphase).windows s hs hold
  · have hbusy := h.sound.busy fun hnil => by
      have hin := h.mem_queue hc hphase
      rw [hnil] at hin
      cases hin
    have hslots := h.sound.slots
    have hcount : w.inFlight.length ≤ between s (s + ms) w.begun := by
      refine length_le_between h.sound.nodup fun m hm => ?_
      obtain ⟨d,since,hd,hworking⟩ := (h.sound.fair.inFlight m).mp hm
      have hgranted := (h.sound.calls m d hd).granted since hworking
      have hpast := h.past since (List.mem_map.mpr ⟨_,hgranted,rfl⟩)
      have hdue := h.due_move hok (.advanced passed) hd hworking
      change w.clock + passed ≤ since + ms at hdue
      exact ⟨since,hgranted,by omega,by omega⟩
    omega

theorem waits_move (h : w.Prompt capacity ms) (hok : OnTime ms w e) (hmove : DownstreamMove w e w')
    (hd : w'.call n = some d) (hphase : d.phase = .waiting) : d.Waits w' capacity ms n := by
  cases hmove with
  | advanced passed =>
    exact ⟨(h.waits n d hd hphase).place,fun s hs hpassed =>
      h.windows_advance hok hd hphase s hs hpassed⟩
  | admitted m c hnone hfree =>
    rcases update_eq_some hd with ⟨rfl,rfl⟩ | ⟨_,hd⟩
    · cases hphase
    · have hin := h.mem_queue hd hphase
      rw [h.sound.queue_nil hfree] at hin
      cases hin
  | queued m c hnone hbusy hstarted hfound hwaiting =>
    have hqueue : (w.resource.waitQueue ++
        [(⟨m,w.clock + timerDelay c.acquireTimeoutMs⟩ : Waiter)]).map Waiter.caller =
        w.resource.waitQueue.map Waiter.caller ++ [m] := by
      rw [List.map_append]
      rfl
    rcases update_eq_some hd with ⟨rfl,rfl⟩ | ⟨_,hd⟩
    · have hnew : n ∉ w.resource.waitQueue.map Waiter.caller := fun hmem =>
        (h.sound.arrived n hnone).1 (h.sound.order.subset (List.mem_append_right _ hmem))
      refine ⟨?_,fun s hs hpassed => ?_⟩
      · change after d.startedAt w.begun + ((w.resource.waitQueue ++ [_]).map Waiter.caller).idxOf n ≤
          d.found
        rw [hqueue,List.idxOf_append_of_notMem hnew,List.idxOf_cons_self,hstarted,
          after_eq_zero h.past,hfound,List.length_map]
        omega
      · change s + ms < w.clock at hpassed
        rw [hstarted] at hs
        omega
    · refine (h.waits n d hd hphase).keep rfl (List.append_nil _).symm ?_
      change 0 + ((w.resource.waitQueue ++ [_]).map Waiter.caller).idxOf n ≤ _
      rw [hqueue,List.idxOf_append_of_mem (h.mem_queue hd hphase)]
      omega
  | released m c since hc hworking hdone hqueue =>
    rcases update_eq_some hd with ⟨rfl,rfl⟩ | ⟨_,hd⟩
    · cases hphase
    · exact (h.waits n d hd hphase).keep rfl (List.append_nil _).symm (Nat.le_of_eq (Nat.zero_add _))
  | handedOver m c since entry rest hc hworking hdone hqueue =>
    obtain ⟨f,_,_,_,hfinish⟩ := h.sound.finish_eq hc hworking hqueue
    rw [hfinish] at hd ⊢
    rcases update_eq_some hd with ⟨rfl,rfl⟩ | ⟨hne,hd⟩
    · cases hphase
    · rcases update_eq_some hd with ⟨rfl,rfl⟩ | ⟨_,hd⟩
      · cases hphase
      · have hbegun : (w.granted ++ [(entry.caller,w.clock)]).map Prod.snd =
            w.begun ++ [w.clock] := by
          rw [List.map_append]
          rfl
        refine (h.waits n d hd hphase).keep rfl hbegun ?_
        change 1 + (rest.map Waiter.caller).idxOf n ≤ _
        rw [hqueue,List.map_cons,List.idxOf_cons_ne _ hne.symm]
        omega
  | timedOut m c hc hwaiting hdue =>
    rcases update_eq_some hd with ⟨rfl,rfl⟩ | ⟨hne,hd⟩
    · cases hphase
    · refine (h.waits n d hd hphase).keep rfl (List.append_nil _).symm ?_
      change 0 + ((w.resource.waitQueue.eraseP (·.caller == m)).map Waiter.caller).idxOf n ≤ _
      rw [Sound.map_caller_eraseP,Nat.zero_add]
      exact idxOf_erase_le (Ne.symm hne) _

theorem served_move (h : w.Prompt capacity ms) (hmove : DownstreamMove w e w')
    (hd : w'.call n = some d)
    (hwaiting : d.phase = .waiting → w'.clock ≤ d.startedAt + d.patience capacity ms) :
    d.Served w' capacity ms n := by
  refine ⟨hwaiting,fun t ht => ?_,fun error herror => ?_⟩
  · rcases h.sound.call_move hmove hd with ⟨hnone,_,hstarted,_⟩ | ⟨c,hc,heq⟩
    · have hbegun : t ∈ w'.begun := List.mem_map.mpr ⟨_,ht,rfl⟩
      rcases h.sound.granted_move hmove with hsame | ⟨m,hmore,_⟩
      · rw [begun,hsame] at hbegun
        have hpast := h.past t hbegun
        omega
      · rw [begun,hmore,List.map_append,List.mem_append] at hbegun
        rcases hbegun with hbegun | hbegun
        · have hpast := h.past t hbegun
          omega
        · rw [List.mem_singleton.mp hbegun]
          change w.clock ≤ _
          omega
    · have hserved := h.served n c hc
      rw [heq]
      rcases h.sound.granted_move hmove with hsame | ⟨m,hmore,_,_,hwaited⟩
      · rw [hsame] at ht
        exact hserved.granted t ht
      · rw [hmore,List.mem_append,List.mem_singleton] at ht
        rcases ht with ht | ht
        · exact hserved.granted t ht
        · cases ht
          exact hserved.waiting (hwaited c hc)
  · rcases h.sound.threw_move hmove hd herror with hc | ⟨c,hc,hphase,heq,hdue⟩
    · exact (h.served n d hc).rejected error herror
    · have hwait := (h.served n c hc).waiting hphase
      rw [heq]
      change timerDelay c.acquireTimeoutMs ≤ c.patience capacity ms
      omega

theorem move (h : w.Prompt capacity ms) (hcap : 0 < capacity) (hok : OnTime ms w e)
    (hmove : DownstreamMove w e w') : w'.Prompt capacity ms := by
  refine ⟨h.sound.move hmove,fun m d hd => ?_,h.past_move hmove,
    fun _ _ _ hd hphase => h.due_move hok hmove hd hphase,
    fun _ _ hd hphase => h.waits_move hok hmove hd hphase,
    fun _ _ hd => h.served_move hmove hd fun hphase => (h.waits_move hok hmove hd hphase).le hcap⟩
  refine h.sound.works_move (P := (· ≤ ms)) hmove ?_ h.works hd
  rintro k workMs acquireTimeoutMs rfl
  exact hok

theorem reachable {clock : Int} (hcap : 0 < capacity)
    (h : ReachableBy downstreamStep (· = fresh capacity clock) (OnTime ms) w) :
    w.Prompt capacity ms := by
  apply ReachableBy.invariant (s := w) ?_ ?_ h
  · rintro s rfl
    exact start capacity ms clock
  · exact fun _ _ _ hs hok hstep => hs.move hcap hok (downstreamStep_move hstep)

end DownstreamWorld.Prompt

/-- A caller that has found `found` others in line gets its slot within
`(found / capacity + 1) * ms`, or gives up before; with an `acquireTimeoutMs` above that it never
gives up. -/
theorem callSlowDownstream_wait {clock : Int} (hcap : 0 < capacity)
    (h : ReachableBy downstreamStep (· = .fresh capacity clock) (OnTime ms) w)
    (hc : w.call n = some c) : c.Served w capacity ms n :=
  (DownstreamWorld.Prompt.reachable hcap h).served n c hc

/-- The second of the two callers finds nobody in line, and waits for 10 ms. -/
theorem callSlowDownstream_wait_two : ∃ (w : DownstreamWorld) (c : DownstreamCall),
    (1,10) ∈ w.granted ∧ c.found = 0 ∧ c.Served w 1 10 1 := by
  have hend : (run downstreamStep (.fresh 1 0) twoDownstreamCalls).any (fun w =>
      decide ((1,10) ∈ w.granted) && (w.call 1).any (·.found == 0)) = true := by decide
  obtain ⟨w,hrun,hresult,_⟩ := exists_run_of_any hend
  obtain ⟨hgranted,hcall⟩ := Bool.and_eq_true_iff.mp hresult
  obtain ⟨c,hc,hfound⟩ := (Option.any_eq_true _ _).mp hcall
  have halong : Along downstreamStep (OnTime 10) (.fresh 1 0) twoDownstreamCalls := by decide
  have hreachable : ReachableBy downstreamStep (· = .fresh 1 0) (OnTime 10) w :=
    ReachableBy.run (.start rfl) halong hrun
  exact ⟨w,c,of_decide_eq_true hgranted,eq_of_beq hfound,
    callSlowDownstream_wait (by decide) hreachable hc⟩

end SystemsLab.Backpressure
