import SystemsLab.Framework.OffsetSelect
import SystemsLab.Pagination.KeysetSafety

/-!
# Offset pagination over `activity_events`

A client asks for one offset after another while rows are inserted and deleted. An insert ahead of
where it is brings rows back that it has had, and a delete takes rows past it that it has not had.
Each does so to one row at most, so that the inserts bound the repeats and the deletes the losses.
-/

namespace SystemsLab.Pagination

variable {events : ActivityEvents} {event r : ActivityEvent} {limit offset : Nat}

def runOffsetPage (events : ActivityEvents) (offset limit : Nat) : List ActivityEventRow :=
  (selectOffset ActivityEvent.key limit offset events.rows).map ActivityEvent.row

/-- A client that has asked for the pages up to `offset`. -/
structure OffsetWorld where
  events : ActivityEvents
  offset : Nat := 0
  delivered : List ActivityEventRow := []
  finished : Bool := false

/-- `nextOffset = PAGE_OFFSET + PAGE_SIZE`, until a page comes back empty. -/
def OffsetWorld.fetch (limit : Nat) (w : OffsetWorld) : OffsetWorld :=
  let page := runOffsetPage w.events w.offset limit
  { w with
    offset := w.offset + limit
    delivered := w.delivered ++ page
    finished := page.isEmpty }

def offsetStep (limit : Nat) (w : OffsetWorld) : KeysetEvent → Option OffsetWorld
  | .insert event => (w.events.insert event).map fun events => { w with events }
  | .delete id => some { w with events := w.events.delete id }
  | .fetch => if w.finished then none else some (w.fetch limit)

theorem offsetStep_cases {w w' : OffsetWorld} {e : KeysetEvent}
    (h : offsetStep limit w e = some w') :
    (∃ event events, e = .insert event ∧ events.rows = w.events.rows ++ [event] ∧
      w' = { w with events }) ∨
    (∃ id, e = .delete id ∧ w' = { w with events := w.events.delete id }) ∨
    e = .fetch ∧ w.finished = false ∧ w' = w.fetch limit := by
  cases e with
  | insert event =>
    obtain ⟨events,hinsert,rfl⟩ := Option.map_eq_some_iff.mp h
    unfold ActivityEvents.insert at hinsert
    split at hinsert
    · cases hinsert
      exact .inl ⟨event,_,rfl,rfl,rfl⟩
    · cases hinsert
  | delete id =>
    cases h
    exact .inr (.inl ⟨id,rfl,rfl⟩)
  | fetch =>
    simp only [offsetStep] at h
    split at h
    · cases h
    next hfinished =>
      cases h
      exact .inr (.inr ⟨rfl,by simpa using hfinished,rfl⟩)

theorem mem_runOffsetPage_iff (hr : r ∈ events.rows) :
    r.row ∈ runOffsetPage events offset limit ↔
      r ∈ selectOffset ActivityEvent.key limit offset events.rows := by
  constructor
  · intro h
    obtain ⟨q,hq,hrow⟩ := List.mem_map.mp h
    have hqrows := ((mem_selectOffset_iff events.keys).mp hq).1
    obtain rfl : q = r := ActivityEvents.eq_of_row hqrows hr hrow
    exact hq
  · exact List.mem_map_of_mem

/-- A page has a row once if its offset and the next one enclose the position of the row. -/
theorem count_runOffsetPage (hr : r ∈ events.rows) :
    (runOffsetPage events offset limit).count r.row =
      if offset ≤ position ActivityEvent.key events.rows r ∧
        position ActivityEvent.key events.rows r < offset + limit then 1 else 0 := by
  have hmem : r.row ∈ runOffsetPage events offset limit ↔
      r ∈ selectOffset ActivityEvent.key limit offset events.rows := mem_runOffsetPage_iff hr
  rw [mem_selectOffset_iff events.keys] at hmem
  have hnodup : (runOffsetPage events offset limit).Nodup := by
    apply List.Nodup.map_on
    · intro p hp q hq hrow
      have hp' := ((mem_selectOffset_iff events.keys).mp hp).1
      have hq' := ((mem_selectOffset_iff events.keys).mp hq).1
      exact ActivityEvents.eq_of_row hp' hq' hrow
    · exact selectOffset_nodup (List.Nodup.of_map _ events.ids)
  split
  next hin => exact List.count_eq_one_of_mem hnodup (hmem.mpr ⟨hr,hin⟩)
  next hout => exact List.count_eq_zero.mpr fun h => hout (hmem.mp h).2

namespace OffsetWorld

/-- The client has asked for more than what is ahead of the row. -/
def passed (w : OffsetWorld) (r : ActivityEvent) : Prop :=
  position ActivityEvent.key w.events.rows r < w.offset

instance (w : OffsetWorld) (r : ActivityEvent) : Decidable (w.passed r) :=
  inferInstanceAs (Decidable (_ < _))

/-- How often the row has been delivered, without the one time that it takes to pass it. -/
def repeats (w : OffsetWorld) (r : ActivityEvent) : Nat :=
  w.delivered.count r.row - if w.passed r then 1 else 0

/-- Whether the client will not have the row, as the table is by now. -/
def lost (w : OffsetWorld) (r : ActivityEvent) : Nat :=
  if r.row ∉ w.delivered ∧ (w.passed r ∨ w.finished = true) then 1 else 0

variable {w w' : OffsetWorld} {chosen : List ActivityEvent}

private theorem count_fetch (limit : Nat) (hr : r ∈ w.events.rows) :
    (w.fetch limit).delivered.count r.row = w.delivered.count r.row +
      if ¬ w.passed r ∧ (w.fetch limit).passed r then 1 else 0 := by
  show (w.delivered ++ runOffsetPage w.events w.offset limit).count r.row = _
  rw [List.count_append,count_runOffsetPage hr]
  simp only [passed,fetch,Nat.not_lt]

private theorem repeats_fetch (hr : r ∈ w.events.rows) :
    (w.fetch limit).repeats r = w.repeats r := by
  have hcount := count_fetch limit hr
  have hmono : w.passed r → (w.fetch limit).passed r := fun h => Nat.lt_add_right limit h
  unfold repeats
  rw [hcount]
  by_cases hpassed : w.passed r
  · simp only [hpassed,hmono hpassed,not_true_eq_false,false_and,if_false,if_true,Nat.add_zero]
  · by_cases hnext : (w.fetch limit).passed r
    · simp only [hpassed,hnext,not_false_eq_true,true_and,if_true,if_false]
      omega
    · simp only [hpassed,hnext,and_false,if_false,Nat.add_zero]

/-- A fetch passes only what it delivers. -/
theorem lost_fetch (hlimit : 0 < limit) (hr : r ∈ w.events.rows) :
    (w.fetch limit).lost r ≤ w.lost r := by
  by_cases hgone : r.row ∉ (w.fetch limit).delivered ∧
      ((w.fetch limit).passed r ∨ (w.fetch limit).finished = true)
  · obtain ⟨hout,hend⟩ := hgone
    have hold : r.row ∉ w.delivered := fun h => hout (List.mem_append_left _ h)
    have hcount := count_fetch limit hr
    rw [List.count_eq_zero.mpr hout,List.count_eq_zero.mpr hold] at hcount
    have hpassed : w.passed r := by
      by_contra hnot
      have hnext : ¬ (w.fetch limit).passed r := by
        intro hnext
        rw [if_pos ⟨hnot,hnext⟩] at hcount
        omega
      have hempty : runOffsetPage w.events w.offset limit = [] :=
        List.isEmpty_iff.mp (hend.resolve_left hnext)
      exact hnot (position_lt_of_selectOffset_nil hlimit (List.map_eq_nil_iff.mp hempty) hr)
    have hlost : w.lost r = 1 := if_pos ⟨hold,.inl hpassed⟩
    have hlost' : (w.fetch limit).lost r = 1 := if_pos ⟨hout,hend⟩
    rw [hlost,hlost']
  · have hlost' : (w.fetch limit).lost r = 0 := if_neg hgone
    rw [hlost']
    exact Nat.zero_le _

/-- The table has changed since the last page. -/
def change (w : OffsetWorld) (events : ActivityEvents) : OffsetWorld := { w with events }

private theorem lost_change_le (h : (w.change events).passed r → w.passed r) :
    (w.change events).lost r ≤ w.lost r := by
  by_cases hlost : r.row ∉ w.delivered ∧ ((w.change events).passed r ∨ w.finished = true)
  · have hold : w.lost r = 1 := if_pos ⟨hlost.1,hlost.2.imp_left h⟩
    rw [hold]
    exact (if_pos hlost).le
  · have hnew : (w.change events).lost r = 0 := if_neg hlost
    rw [hnew]
    exact Nat.zero_le _

private theorem lost_change_le_succ (w : OffsetWorld) (events : ActivityEvents)
    (r : ActivityEvent) :
    (w.change events).lost r ≤ w.lost r + 1 := by
  have hone : (w.change events).lost r ≤ 1 := by
    unfold lost
    split <;> omega
  exact Nat.le_trans hone (Nat.le_add_left 1 _)

private theorem repeats_change_le (h : w.passed r → (w.change events).passed r) :
    (w.change events).repeats r ≤ w.repeats r := by
  show w.delivered.count r.row - _ ≤ w.delivered.count r.row - _
  by_cases hpassed : w.passed r
  · rw [if_pos hpassed,if_pos (h hpassed)]
  · rw [if_neg hpassed]
    exact Nat.sub_le _ _

private theorem repeats_change_le_succ (w : OffsetWorld) (events : ActivityEvents)
    (r : ActivityEvent) :
    (w.change events).repeats r ≤ w.repeats r + 1 := by
  show w.delivered.count r.row - _ ≤ w.delivered.count r.row - _ + 1
  split <;> split <;> omega

theorem passed_insert_iff (hrows : events.rows = w.events.rows ++ [event]) :
    (w.change events).passed r ↔ position ActivityEvent.key w.events.rows r +
      (if event.key < r.key then 1 else 0) < w.offset := by
  show position ActivityEvent.key events.rows r < w.offset ↔ _
  rw [hrows,position_insert]

/-- The deletes of an `id` that is that of a row ahead. -/
def hits (w : OffsetWorld) (id : Int) (r : ActivityEvent) : Nat :=
  w.events.rows.countP fun q => decide (q.id = id) && decide (q.key < r.key)

private theorem hits_le_one (w : OffsetWorld) (id : Int) (r : ActivityEvent) : w.hits id r ≤ 1 := by
  have hone := List.nodup_iff_count_le_one.mp w.events.ids id
  rw [List.count,List.countP_map] at hone
  refine Nat.le_trans (List.countP_mono_left fun q _ hq => ?_) hone
  simp only [Bool.and_eq_true,decide_eq_true_eq] at hq
  simp [hq.1]

private theorem position_delete_add (w : OffsetWorld) (id : Int) (r : ActivityEvent) :
    position ActivityEvent.key (w.events.delete id).rows r + w.hits id r =
      position ActivityEvent.key w.events.rows r := by
  have hadd := position_filter_add ActivityEvent.key (fun q => decide (q.id ≠ id)) w.events.rows r
  have hhits : w.hits id r = w.events.rows.countP
      (fun q => !decide (q.id ≠ id) && decide (q.key < r.key)) := by
    apply List.countP_congr
    intro q _
    simp
  rw [hhits]
  exact hadd

end OffsetWorld

def KeysetEvent.inserted : KeysetEvent → Option ActivityEvent
  | .insert event => some event
  | _ => none

def KeysetEvent.insertsAhead (chosen : List ActivityEvent) : KeysetEvent → Bool
  | .insert event => chosen.any fun r => decide (event.key < r.key)
  | _ => false

/-- A delete of one of the `known` rows, ahead of a row that is chosen. -/
def KeysetEvent.deletesAhead (known chosen : List ActivityEvent) : KeysetEvent → Bool
  | .delete id => known.any fun q => decide (q.id = id) && chosen.any fun r => decide (q.key < r.key)
  | _ => false

/-- The run inserts known rows only, and deletes none of the chosen ones. -/
def KeysetEvent.Spares (known chosen : List ActivityEvent) (e : KeysetEvent) : Prop :=
  (∀ event, e.inserted = some event → event ∈ known) ∧ ∀ r ∈ chosen, e ≠ .delete r.id

namespace OffsetWorld

variable {w w' : OffsetWorld} {known chosen : List ActivityEvent} {e : KeysetEvent}

structure Keeps (known chosen : List ActivityEvent) (w : OffsetWorld) : Prop where
  chosen : ∀ r ∈ chosen, r ∈ w.events.rows
  known : ∀ q ∈ w.events.rows, q ∈ known

theorem Keeps.step (h : w.Keeps known chosen) (he : e.Spares known chosen)
    (hstep : offsetStep limit w e = some w') : w'.Keeps known chosen := by
  rcases offsetStep_cases hstep with ⟨event,events,rfl,hrows,rfl⟩ | ⟨id,rfl,rfl⟩ | ⟨rfl,_,rfl⟩
  · constructor
    · intro r hr
      show r ∈ events.rows
      rw [hrows]
      exact List.mem_append_left _ (h.chosen r hr)
    · intro q hq
      replace hq : q ∈ w.events.rows ++ [event] := hrows ▸ hq
      exact forall_append_next h.known (he.1 event rfl) q hq
  · constructor
    · intro r hr
      apply List.mem_filter.mpr
      refine ⟨h.chosen r hr,decide_eq_true ?_⟩
      intro hid
      exact he.2 r hr (congrArg KeysetEvent.delete hid.symm)
    · intro q hq
      exact h.known q (List.mem_of_mem_filter hq)
  · exact ⟨h.chosen,h.known⟩

private theorem sum_repeats_insert (h : w.Keeps known chosen) (hchosen : chosen.Nodup)
    (hrows : events.rows = w.events.rows ++ [event]) :
    (chosen.map (w.change events).repeats).sum ≤ (chosen.map w.repeats).sum +
      if (KeysetEvent.insert event).insertsAhead chosen then 1 else 0 := by
  by_cases hahead : (KeysetEvent.insert event).insertsAhead chosen = true
  · rw [if_pos hahead]
    apply sum_le_sum_add_one (n := w.offset - 1) hchosen h.chosen w.events.keys
    intro r _
    split
    · exact repeats_change_le_succ w events r
    next hposition =>
      apply repeats_change_le
      intro hpassed
      rw [passed_insert_iff hrows]
      unfold passed at hpassed
      split <;> omega
  · rw [if_neg hahead]
    apply sum_le_sum_of_le
    intro r hr
    have hbehind : ¬ event.key < r.key := by
      intro hlt
      exact hahead (List.any_eq_true.mpr ⟨r,hr,decide_eq_true hlt⟩)
    apply repeats_change_le
    intro hpassed
    rw [passed_insert_iff hrows,if_neg hbehind]
    exact hpassed

theorem sum_repeats_step (h : w.Keeps known chosen) (hchosen : chosen.Nodup)
    (hstep : offsetStep limit w e = some w') :
    (chosen.map w'.repeats).sum ≤ (chosen.map w.repeats).sum +
      if e.insertsAhead chosen then 1 else 0 := by
  rcases offsetStep_cases hstep with ⟨event,events,rfl,hrows,rfl⟩ | ⟨id,rfl,rfl⟩ | ⟨rfl,_,rfl⟩
  · exact sum_repeats_insert h hchosen hrows
  · apply sum_le_sum_of_le
    intro r _
    apply repeats_change_le
    intro hpassed
    have hadd := position_delete_add w id r
    unfold passed at hpassed
    show position ActivityEvent.key (w.events.delete id).rows r < w.offset
    omega
  · apply sum_le_sum_of_le
    intro r hr
    exact (repeats_fetch (h.chosen r hr)).le

private theorem sum_lost_delete (h : w.Keeps known chosen) (hchosen : chosen.Nodup) (id : Int) :
    (chosen.map (w.change (w.events.delete id)).lost).sum ≤ (chosen.map w.lost).sum +
      if (KeysetEvent.delete id).deletesAhead known chosen then 1 else 0 := by
  by_cases hahead : (KeysetEvent.delete id).deletesAhead known chosen = true
  · rw [if_pos hahead]
    apply sum_le_sum_add_one (n := w.offset) hchosen h.chosen w.events.keys
    intro r _
    split
    · exact lost_change_le_succ w _ r
    next hposition =>
      apply lost_change_le
      intro hpassed
      replace hpassed : position ActivityEvent.key (w.events.delete id).rows r < w.offset := hpassed
      have hadd := position_delete_add w id r
      have hone := w.hits_le_one id r
      unfold passed
      omega
  · rw [if_neg hahead]
    apply sum_le_sum_of_le
    intro r hr
    have hzero : w.hits id r = 0 := by
      apply List.countP_eq_zero.mpr
      intro q hq hhit
      obtain ⟨hid,hlt⟩ := Bool.and_eq_true_iff.mp hhit
      have hchosenAhead : chosen.any (fun r => decide (q.key < r.key)) = true :=
        List.any_eq_true.mpr ⟨r,hr,hlt⟩
      exact hahead (List.any_eq_true.mpr ⟨q,h.known q hq,by rw [hid,hchosenAhead]; rfl⟩)
    apply lost_change_le
    intro hpassed
    replace hpassed : position ActivityEvent.key (w.events.delete id).rows r < w.offset := hpassed
    have hadd := position_delete_add w id r
    unfold passed
    omega

theorem sum_lost_step (hlimit : 0 < limit) (h : w.Keeps known chosen) (hchosen : chosen.Nodup)
    (hstep : offsetStep limit w e = some w') :
    (chosen.map w'.lost).sum ≤ (chosen.map w.lost).sum +
      if e.deletesAhead known chosen then 1 else 0 := by
  rcases offsetStep_cases hstep with ⟨event,events,rfl,hrows,rfl⟩ | ⟨id,rfl,rfl⟩ | ⟨rfl,_,rfl⟩
  · apply sum_le_sum_of_le
    intro r _
    apply lost_change_le
    rw [passed_insert_iff hrows]
    exact fun hpassed => Nat.lt_of_le_of_lt (Nat.le_add_right _ _) hpassed
  · exact sum_lost_delete h hchosen id
  · apply sum_le_sum_of_le
    intro r hr
    exact lost_fetch hlimit (h.chosen r hr)

/-- All rows that a run ever has in the table. -/
def everStored (s : OffsetWorld) (es : List KeysetEvent) : List ActivityEvent :=
  s.events.rows ++ es.filterMap KeysetEvent.inserted

/-- The rows that are ahead of the client and stay in the table. -/
structure Kept (s : OffsetWorld) (es : List KeysetEvent) (chosen : List ActivityEvent) : Prop where
  nodup : chosen.Nodup
  stored : ∀ r ∈ chosen, r ∈ s.events.rows
  ahead : ∀ r ∈ chosen, s.offset ≤ position ActivityEvent.key s.events.rows r
  spared : ∀ r ∈ chosen, .delete r.id ∉ es

variable {s t : OffsetWorld} {es : List KeysetEvent}

namespace Kept

private theorem along (h : s.Kept es chosen) :
    Along (offsetStep limit) (fun _ e => e.Spares (s.everStored es) chosen) s es := by
  apply along_of_forall
  intro e he
  constructor
  · intro event hevent
    exact List.mem_append_right _ (List.mem_filterMap.mpr ⟨e,he,hevent⟩)
  · rintro r hr rfl
    exact h.spared r hr he

theorem keeps (h : s.Kept es chosen) : s.Keeps (s.everStored es) chosen :=
  ⟨h.stored,fun _ hq => List.mem_append_left _ hq⟩

private theorem sum_repeats (h : s.Kept es chosen) (hdelivered : s.delivered = [])
    (hrun : run (offsetStep limit) s es = some t) :
    (chosen.map t.repeats).sum ≤ es.countP (KeysetEvent.insertsAhead chosen) := by
  have hpotential : (chosen.map t.repeats).sum ≤
      (chosen.map s.repeats).sum + es.countP (KeysetEvent.insertsAhead chosen) := by
    apply run_potential _ (fun w => (chosen.map w.repeats).sum) ?_ ?_ h.keeps h.along hrun
    · intro w e w' hw he hstep
      exact hw.step he hstep
    · intro w e w' hw _ hstep
      exact sum_repeats_step hw h.nodup hstep
  have hzero : (chosen.map s.repeats).sum = 0 := by
    apply Nat.eq_zero_of_le_zero
    have hle : (chosen.map s.repeats).sum ≤ (chosen.map fun _ => 0).sum := by
      apply sum_le_sum_of_le
      intro r _
      simp [repeats,hdelivered]
    simpa using hle
  omega

private theorem sum_lost (h : s.Kept es chosen) (hlimit : 0 < limit)
    (hfinished : s.finished = false)
    (hrun : run (offsetStep limit) s es = some t) :
    (chosen.map t.lost).sum ≤ es.countP (KeysetEvent.deletesAhead (s.everStored es) chosen) := by
  have hpotential : (chosen.map t.lost).sum ≤ (chosen.map s.lost).sum +
      es.countP (KeysetEvent.deletesAhead (s.everStored es) chosen) := by
    apply run_potential _ (fun w => (chosen.map w.lost).sum) ?_ ?_ h.keeps h.along hrun
    · intro w e w' hw he hstep
      exact hw.step he hstep
    · intro w e w' hw _ hstep
      exact sum_lost_step hlimit hw h.nodup hstep
  have hzero : (chosen.map s.lost).sum = 0 := by
    apply Nat.eq_zero_of_le_zero
    have hle : (chosen.map s.lost).sum ≤ (chosen.map fun _ => 0).sum := by
      apply sum_le_sum_of_le
      intro r hr
      have hahead := h.ahead r hr
      have hnot : ¬ (r.row ∉ s.delivered ∧ (s.passed r ∨ s.finished = true)) := by
        rintro ⟨_,hpassed | hend⟩
        · exact Nat.not_lt.mpr hahead hpassed
        · rw [hfinished] at hend
          cases hend
      exact (if_neg hnot).le
    simpa using hle
  omega

end Kept

/-- At the end, what has not been delivered is lost. -/
theorem countP_undelivered (hfinished : t.finished = true) (chosen : List ActivityEvent) :
    chosen.countP (fun r => r.row ∉ t.delivered) = (chosen.map t.lost).sum := by
  induction chosen with
  | nil => rfl
  | cons r chosen ih =>
    rw [List.countP_cons,List.map_cons,List.sum_cons,ih,Nat.add_comm]
    simp [lost,hfinished]

private theorem sum_repeated_le (t : OffsetWorld) (chosen : List ActivityEvent) :
    (chosen.map fun r => t.delivered.count r.row - 1).sum ≤ (chosen.map t.repeats).sum := by
  apply sum_le_sum_of_le
  intro r _
  unfold repeats
  split <;> omega

/-- Where a client is in a table that does not change. -/
structure Undisturbed (s w : OffsetWorld) : Prop where
  events : w.events = s.events
  reached : s.offset ≤ w.offset
  delivered : w.delivered = (((orderBy ActivityEvent.key s.events.rows).drop s.offset).take
    (w.offset - s.offset)).map ActivityEvent.row
  ended : w.finished = true → s.events.rows.length ≤ w.offset

private theorem Undisturbed.fetch (h : s.Undisturbed w) (hlimit : 0 < limit) :
    s.Undisturbed (w.fetch limit) := by
  have hfrom := h.reached
  refine ⟨h.events,Nat.le_add_right_of_le hfrom,?_,?_⟩
  · show w.delivered ++ runOffsetPage w.events w.offset limit = _
    have hoffset : (w.fetch limit).offset - s.offset = w.offset - s.offset + limit := by
      show w.offset + limit - s.offset = _
      omega
    rw [hoffset,List.take_add,List.drop_drop,Nat.add_sub_cancel' hfrom,List.map_append,h.delivered,
      h.events]
    rfl
  · intro hfinished
    have hempty : runOffsetPage w.events w.offset limit = [] := List.isEmpty_iff.mp hfinished
    have hlength := congrArg List.length hempty
    rw [runOffsetPage,List.length_map,selectOffset,List.length_take,List.length_drop,
      (orderBy_perm _ _).length_eq,h.events,List.length_nil] at hlength
    show s.events.rows.length ≤ w.offset + limit
    omega

private theorem finishes (w : OffsetWorld) (hlimit : 0 < limit) :
    ∃ n u, SystemsLab.run (offsetStep limit) w (List.replicate n .fetch) = some u ∧
      u.finished = true := by
  induction hrest : w.events.rows.length - w.offset using Nat.strong_induction_on generalizing w with
  | h rest ih =>
    cases hfinished : w.finished with
    | true => exact ⟨0,w,rfl,hfinished⟩
    | false =>
      have hstep : offsetStep limit w .fetch = some (w.fetch limit) := by
        simp [offsetStep,hfinished]
      by_cases hend : w.events.rows.length ≤ w.offset
      · refine ⟨1,w.fetch limit,run_cons_of hstep [],?_⟩
        have hempty : runOffsetPage w.events w.offset limit = [] := by
          rw [runOffsetPage,selectOffset,List.drop_eq_nil_of_le]
          · simp
          · rwa [(orderBy_perm _ _).length_eq]
        exact List.isEmpty_iff.mpr hempty
      · have hlt : (w.fetch limit).events.rows.length - (w.fetch limit).offset < rest := by
          show w.events.rows.length - (w.offset + limit) < rest
          omega
        obtain ⟨n,u,hrun,hu⟩ := ih _ hlt (w.fetch limit) rfl
        exact ⟨n + 1,u,(run_cons_of hstep _).trans hrun,hu⟩

theorem Undisturbed.run (h : s.Undisturbed w) (hlimit : 0 < limit) (hes : ∀ e ∈ es, e = .fetch)
    (hrun : run (offsetStep limit) w es = some t) : s.Undisturbed t := by
  apply (along_of_forall hes w).invariant hrun h
  intro v e v' hv he hstep
  subst he
  rcases offsetStep_cases hstep with ⟨_,_,he,_⟩ | ⟨_,he,_⟩ | ⟨_,_,rfl⟩
  · cases he
  · cases he
  · exact hv.fetch hlimit

end OffsetWorld

/-- What a client has who goes from offset to offset. -/
structure OffsetWorld.Delivers (s : OffsetWorld) (es : List KeysetEvent) (t : OffsetWorld) :
    Prop where
  repeated : ∀ chosen, s.Kept es chosen →
    (chosen.map fun r => t.delivered.count r.row - 1).sum ≤
      es.countP (KeysetEvent.insertsAhead chosen)
  lost : ∀ chosen, s.Kept es chosen → t.finished = true →
    chosen.countP (fun r => r.row ∉ t.delivered) ≤
      es.countP (KeysetEvent.deletesAhead (s.everStored es) chosen)
  undisturbed : (∀ e ∈ es, e = .fetch) → t.finished = true →
    t.delivered = ((orderBy ActivityEvent.key s.events.rows).drop s.offset).map ActivityEvent.row

theorem offsetWalk_delivers {s t : OffsetWorld} {es : List KeysetEvent} (hlimit : 0 < limit)
    (hdelivered : s.delivered = []) (hfinished : s.finished = false)
    (hrun : run (offsetStep limit) s es = some t) :
    s.Delivers es t ∧
      ∃ n u, run (offsetStep limit) t (List.replicate n .fetch) = some u ∧ u.finished = true := by
  refine ⟨⟨?_,?_,?_⟩,t.finishes hlimit⟩
  · intro chosen hkept
    exact Nat.le_trans (t.sum_repeated_le chosen) (hkept.sum_repeats hdelivered hrun)
  · intro chosen hkept hend
    rw [OffsetWorld.countP_undelivered hend]
    exact hkept.sum_lost hlimit hfinished hrun
  · intro hes hend
    have hstart : s.Undisturbed s := by
      refine ⟨rfl,Nat.le_refl _,?_,?_⟩
      · rw [hdelivered,Nat.sub_self]
        rfl
      · rw [hfinished]
        nofun
    have hundisturbed := hstart.run hlimit hes hrun
    rw [hundisturbed.delivered,List.take_of_length_le]
    have hlength := hundisturbed.ended hend
    rw [List.length_drop,(orderBy_perm _ _).length_eq]
    omega

def twoEvents : OffsetWorld where
  events := { rows := [login,logout] }

/-- An event that happened before all others. -/
def backfilled : ActivityEvent := ⟨3,"91c4","system","created","incident","1",1735732700000000⟩

/-- The row comes again after the insert, and another one is lost after the delete. -/
theorem backfilledInsert_repeats : ∃ t,
    run (offsetStep 1) twoEvents [.fetch,.insert backfilled,.fetch,.delete 3,.fetch] = some t ∧
      t.delivered = [login.row,login.row] ∧
      twoEvents.Delivers [.fetch,.insert backfilled,.fetch,.delete 3,.fetch] t := by
  have hend : (run (offsetStep 1) twoEvents
      [.fetch,.insert backfilled,.fetch,.delete 3,.fetch]).any
        (fun t => decide (t.delivered = [login.row,login.row])) = true := by decide
  obtain ⟨t,hrun,htwice,_⟩ := exists_run_of_any hend
  exact ⟨t,hrun,of_decide_eq_true htwice,(offsetWalk_delivers (by decide) rfl rfl hrun).1⟩

end SystemsLab.Pagination
