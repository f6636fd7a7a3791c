import SystemsLab.Pagination.Keyset

/-!
# What a keyset walk delivers

A cursor stands for the row it was made of exactly when the `created_at` of that row is a whole
number of milliseconds. Where all rows are like that, a walk is a walk in the sense of ordered
selections; where the row is not, the cursor lies before it.
-/

namespace SystemsLab.Pagination

variable {events : ActivityEvents} {event e : ActivityEvent} {limit : Nat}

def WholeMilliseconds (us : Int) : Prop := us % 1000 = 0

instance (us : Int) : Decidable (WholeMilliseconds us) := inferInstanceAs (Decidable (_ = _))

private theorem toTimestamptz_ofTimestamptz (us : Int) :
    (JsDate.ofTimestamptz us).toTimestamptz = us - us % 1000 := by
  have hdiv := Int.mul_ediv_add_emod us 1000
  unfold JsDate.ofTimestamptz JsDate.toTimestamptz
  dsimp only
  omega

private theorem key_cursorFromRow (h : WholeMilliseconds event.createdAt) :
    (cursorFromRow event.row).key = event.key := by
  have hround := toTimestamptz_ofTimestamptz event.createdAt
  rw [h,Int.sub_zero] at hround
  show toLex ((JsDate.ofTimestamptz event.createdAt).toTimestamptz,event.id) = event.key
  rw [hround]
  rfl

private theorem key_cursorFromRow_lt (h : ¬ WholeMilliseconds event.createdAt) :
    (cursorFromRow event.row).key < event.key := by
  have hround := toTimestamptz_ofTimestamptz event.createdAt
  have hrest := Int.emod_nonneg event.createdAt (show (1000 : Int) ≠ 0 by decide)
  unfold WholeMilliseconds at h
  apply Prod.Lex.toLex_lt_toLex.mpr
  left
  show (JsDate.ofTimestamptz event.createdAt).toTimestamptz < event.createdAt
  omega

theorem ActivityEvents.keys (events : ActivityEvents) :
    (events.rows.map ActivityEvent.key).Nodup := by
  have hids := events.ids
  rw [show ActivityEvent.id = (fun k : Int ×ₗ Int => (ofLex k).2) ∘ ActivityEvent.key from rfl,
    ← List.map_map] at hids
  exact hids.of_map _

theorem ActivityEvents.eq_of_row (he : e ∈ events.rows) (hevent : event ∈ events.rows)
    (h : e.row = event.row) : e = event :=
  eq_of_key_eq events.ids he hevent (congrArg ActivityEventRow.id h)

private theorem ActivityEvents.mem_page {cursor : Option Cursor}
    (h : e ∈ events.page cursor limit) : e ∈ events.rows := by
  cases cursor with
  | none => exact (mem_selectOrdered h).1
  | some cursor => exact (mem_selectOrdered h).1

/-- The page after `event` has the next rows in order, and nothing up to `event`. -/
structure ResumesAfter (events : ActivityEvents) (event : ActivityEvent) (limit : Nat) : Prop where
  page : runKeysetPage events (some (cursorFromRow event.row)) limit =
    (selectOrdered (fun e => decide (event.key < e.key)) ActivityEvent.key limit
      events.rows).map ActivityEvent.row
  never : ∀ e ∈ events.rows, e.key ≤ event.key →
    e.row ∉ runKeysetPage events (some (cursorFromRow event.row)) limit

private theorem resumesAfter_of_whole (hwhole : WholeMilliseconds event.createdAt) :
    ResumesAfter events event limit := by
  have hpage : events.page (some (cursorFromRow event.row)) limit =
      selectOrdered (fun e => decide (event.key < e.key)) ActivityEvent.key limit events.rows := by
    simp only [ActivityEvents.page,key_cursorFromRow hwhole]
  refine ⟨congrArg (List.map ActivityEvent.row) hpage,?_⟩
  intro e he hle hmem
  obtain ⟨e',he',hrow⟩ := List.mem_map.mp hmem
  obtain rfl : e' = e := ActivityEvents.eq_of_row (ActivityEvents.mem_page he') he hrow
  rw [hpage] at he'
  have hlt := of_decide_eq_true (mem_selectOrdered he').2
  exact absurd hlt (not_lt.mpr hle)

/-- A row that a cursor lies before is delivered again, or one before it is. -/
theorem not_resumesAfter (hevent : event ∈ events.rows) (hlimit : 0 < limit)
    (hwhole : ¬ WholeMilliseconds event.createdAt) : ¬ ResumesAfter events event limit := by
  intro h
  let ahead (e : ActivityEvent) : Bool := decide ((cursorFromRow event.row).key < e.key)
  have hahead : ahead event = true := decide_eq_true (key_cursorFromRow_lt hwhole)
  obtain ⟨first,hfirst,hle⟩ := selectOrdered_head events.keys hlimit hevent hahead
  exact h.never first (mem_selectOrdered hfirst).1 hle (List.mem_map_of_mem hfirst)

theorem runKeysetPage_resumes_iff (hevent : event ∈ events.rows) :
    ResumesAfter events event limit ↔ limit = 0 ∨ WholeMilliseconds event.createdAt := by
  constructor
  · intro h
    by_contra hnot
    rw [not_or] at hnot
    exact not_resumesAfter hevent (Nat.pos_of_ne_zero hnot.1) hnot.2 h
  · intro h
    rcases h with rfl | hwhole
    · refine ⟨?_,?_⟩
      · simp [runKeysetPage,ActivityEvents.page,selectOrdered]
      · simp [runKeysetPage,ActivityEvents.page,selectOrdered]
    · exact resumesAfter_of_whole hwhole

def login : ActivityEvent := ⟨1,"5a2e","maria","created","incident","7",1735732800000000⟩

def sameMoment (id : Int) (publicId : String) : ActivityEvent := { login with id, publicId }

/-- Three events of one millisecond between an earlier one and a later one. -/
def busySecond : ActivityEvents where
  rows := [⟨5,"90cf","noor","deleted","incident","7",1735732800001000⟩,sameMoment 4 "4d0e",
    sameMoment 3 "77a1",sameMoment 2 "2b88",
    ⟨6,"11b7","jonas","updated","incident","7",1735732799999000⟩]

theorem login_resumes : ResumesAfter busySecond (sameMoment 3 "77a1") 2 :=
  (runKeysetPage_resumes_iff (by decide)).mpr (.inr rfl)

def halfMillisecond : ActivityEvent := ⟨1,"5a2e","maria","created","incident","7",1735732800000500⟩

theorem halfMillisecond_not_resumed :
    let events : ActivityEvents := { rows := [halfMillisecond] }
    halfMillisecond.row ∈ runKeysetPage events none 20 ∧
      ¬ ResumesAfter events halfMillisecond 20 :=
  ⟨by decide,fun h => h.never halfMillisecond (by decide) le_rfl (by decide)⟩

def ActivityEvents.Whole (events : ActivityEvents) : Prop :=
  ∀ event ∈ events.rows, WholeMilliseconds event.createdAt

instance (events : ActivityEvents) : Decidable events.Whole :=
  inferInstanceAs (Decidable (∀ event ∈ events.rows, WholeMilliseconds event.createdAt))

/-- What a client has done, as a walk over ordered selections. -/
structure KeysetWorld.Refines (w : KeysetWorld) (walk : Walk ActivityEvent (Int ×ₗ Int)) :
    Prop where
  whole : w.events.Whole
  seen : walk.seen = w.seen.map ActivityEvents.rows
  cursor : walk.after = w.cursor.map Cursor.key
  delivered : w.delivered = walk.delivered.map ActivityEvent.row
  wholeDelivered : ∀ event ∈ walk.delivered, WholeMilliseconds event.createdAt

namespace KeysetWorld.Refines

variable {w : KeysetWorld} {walk : Walk ActivityEvent (Int ×ₗ Int)}

private theorem page (h : w.Refines walk) (limit : Nat) :
    w.events.page w.cursor limit = walk.page ActivityEvent.key limit w.events.rows := by
  unfold Walk.page
  rw [h.cursor]
  cases w.cursor with
  | none => rfl
  | some cursor => rfl

private theorem fetch (h : w.Refines walk) (limit : Nat) :
    (w.fetch limit).Refines (walk.next ActivityEvent.key limit w.events.rows) := by
  have hpage := h.page limit
  have hwholePage : ∀ event ∈ walk.page ActivityEvent.key limit w.events.rows,
      WholeMilliseconds event.createdAt := by
    intro event hevent
    exact h.whole event (mem_selectOrdered hevent).1
  refine ⟨h.whole,?_,?_,?_,?_⟩
  · simp [Walk.next,KeysetWorld.fetch,h.seen]
  · show ((walk.page ActivityEvent.key limit w.events.rows).getLast?.map ActivityEvent.key).or
        walk.after = (((runKeysetPage w.events w.cursor limit).getLast?.map cursorFromRow).or
          w.cursor).map Cursor.key
    unfold runKeysetPage
    rw [hpage,h.cursor,List.getLast?_map]
    cases hlast : (walk.page ActivityEvent.key limit w.events.rows).getLast? with
    | none => rfl
    | some last =>
      have hwhole := hwholePage last (List.mem_of_getLast? hlast)
      exact congrArg some (key_cursorFromRow hwhole).symm
  · show w.delivered ++ runKeysetPage w.events w.cursor limit = _
    unfold runKeysetPage
    rw [hpage,h.delivered,← List.map_append]
    rfl
  · intro event hevent
    rcases List.mem_append.mp hevent with hold | hnew
    · exact h.wholeDelivered event hold
    · exact hwholePage event hnew

end KeysetWorld.Refines

/-- The condition on a run: rows that are inserted have whole milliseconds, like those of the
seed. -/
def KeysetEvent.Whole : KeysetEvent → Prop
  | .insert event => WholeMilliseconds event.createdAt
  | _ => True

instance : ∀ e : KeysetEvent, Decidable e.Whole
  | .insert event => inferInstanceAs (Decidable (WholeMilliseconds event.createdAt))
  | .delete _ => isTrue trivial
  | .fetch => isTrue trivial

/-- Before the first page. -/
structure KeysetWorld.Fresh (w : KeysetWorld) : Prop where
  cursor : w.cursor = none
  delivered : w.delivered = []
  finished : w.finished = false
  seen : w.seen = []

structure KeysetWorld.Sound (w : KeysetWorld) (walk : Walk ActivityEvent (Int ×ₗ Int)) :
    Prop where
  refines : w.Refines walk
  faithful : walk.Faithful ActivityEvent.key
  stored : ∀ event ∈ walk.delivered, ∃ events ∈ w.seen, event ∈ events.rows
  ended : w.finished = true → ∃ events ∈ w.seen, ∀ event ∈ events.rows,
    Walk.beyond ActivityEvent.key walk.after event = false

namespace KeysetWorld.Sound

variable {w w' : KeysetWorld} {walk : Walk ActivityEvent (Int ×ₗ Int)}

theorem start (hfresh : w.Fresh) (hwhole : w.events.Whole) : w.Sound {} := by
  refine ⟨⟨hwhole,?_,?_,?_,nofun⟩,.start _,nofun,?_⟩
  · rw [hfresh.seen]
    rfl
  · rw [hfresh.cursor]
    rfl
  · rw [hfresh.delivered]
    rfl
  · intro hfinished
    rw [hfresh.finished] at hfinished
    cases hfinished

private theorem change (h : w.Sound walk) {events : ActivityEvents} (hwhole : events.Whole) :
    { w with events }.Sound walk :=
  ⟨⟨hwhole,h.refines.seen,h.refines.cursor,h.refines.delivered,h.refines.wholeDelivered⟩,
    h.faithful,h.stored,h.ended⟩

private theorem fetch (h : w.Sound walk) (hlimit : 0 < limit) :
    (w.fetch limit).Sound (walk.next ActivityEvent.key limit w.events.rows) := by
  have hlast : w.events ∈ w.seen ++ [w.events] :=
    List.mem_append_right _ (List.mem_singleton_self _)
  refine ⟨h.refines.fetch limit,h.faithful.next limit w.events.keys,?_,?_⟩
  · intro event hevent
    rcases List.mem_append.mp hevent with hold | hnew
    · obtain ⟨events,hseen,hmem⟩ := h.stored event hold
      exact ⟨events,List.mem_append_left _ hseen,hmem⟩
    · exact ⟨w.events,hlast,(mem_selectOrdered hnew).1⟩
  · intro hfinished
    have hpage : walk.page ActivityEvent.key limit w.events.rows = [] := by
      rw [← h.refines.page limit]
      simpa [KeysetWorld.fetch,runKeysetPage] using hfinished
    exact ⟨w.events,hlast,fun event hevent => Walk.passed_of_page_nil hlimit hpage hevent⟩

theorem step (h : w.Sound walk) (hlimit : 0 < limit) {e : KeysetEvent} (hwhole : e.Whole)
    (hstep : keysetStep limit w e = some w') : ∃ walk', w'.Sound walk' := by
  cases e with
  | insert event =>
    obtain ⟨events,hinsert,rfl⟩ := Option.map_eq_some_iff.mp hstep
    unfold ActivityEvents.insert at hinsert
    split at hinsert
    · cases hinsert
      exact ⟨walk,h.change (forall_append_next h.refines.whole hwhole)⟩
    · cases hinsert
  | delete id =>
    cases hstep
    refine ⟨walk,h.change ?_⟩
    intro event hevent
    exact h.refines.whole event (List.mem_of_mem_filter hevent)
  | fetch =>
    simp only [keysetStep] at hstep
    split at hstep
    · cases hstep
    · cases hstep
      exact ⟨_,h.fetch hlimit⟩

theorem run {es : List KeysetEvent} (h : w.Sound walk) (hlimit : 0 < limit)
    (hwhole : Along (keysetStep limit) (fun _ e => e.Whole) w es)
    (hrun : run (keysetStep limit) w es = some w') : ∃ walk', w'.Sound walk' := by
  have hsound : ∃ walk', w.Sound walk' := ⟨walk,h⟩
  apply hwhole.invariant hrun hsound
  intro v e v' hv he hstep
  obtain ⟨walk,hv⟩ := hv
  exact hv.step hlimit he hstep

private theorem sorted (h : w.Sound walk) :
    w.delivered.Pairwise fun r q => (cursorFromRow r).key < (cursorFromRow q).key := by
  rw [h.refines.delivered,List.pairwise_map]
  refine h.faithful.sorted.imp_of_mem ?_
  intro e event he hevent hlt
  rw [key_cursorFromRow (h.refines.wholeDelivered e he),
    key_cursorFromRow (h.refines.wholeDelivered event hevent)]
  exact hlt

private theorem nodup (h : w.Sound walk) : w.delivered.Nodup := by
  refine h.sorted.imp ?_
  rintro r _ hlt rfl
  exact lt_irrefl _ hlt

private theorem mem_of_present (h : w.Sound walk) (hfinished : w.finished = true)
    (hpresent : ∀ events ∈ w.seen, event ∈ events.rows) : event ∈ walk.delivered := by
  obtain ⟨events,hseen,hpassed⟩ := h.ended hfinished
  refine h.faithful.complete event ?_ (hpassed event (hpresent events hseen))
  intro rows hrows
  rw [h.refines.seen] at hrows
  obtain ⟨events',hseen',rfl⟩ := List.mem_map.mp hrows
  exact hpresent events' hseen'

private theorem finishes (h : w.Sound walk) (hlimit : 0 < limit) :
    ∃ n u, SystemsLab.run (keysetStep limit) w (List.replicate n .fetch) = some u ∧
      u.finished = true := by
  induction hcount : w.events.rows.countP (Walk.beyond ActivityEvent.key walk.after)
    using Nat.strong_induction_on generalizing w walk with
  | h count ih =>
    cases hfinished : w.finished with
    | true => exact ⟨0,w,rfl,hfinished⟩
    | false =>
      have hstep : keysetStep limit w .fetch = some (w.fetch limit) := by
        simp [keysetStep,hfinished]
      by_cases hpage : walk.page ActivityEvent.key limit w.events.rows = []
      · refine ⟨1,w.fetch limit,run_cons_of hstep [],?_⟩
        rw [← h.refines.page limit] at hpage
        simp [KeysetWorld.fetch,runKeysetPage,hpage]
      · have hlt := Walk.countP_beyond_lt hpage
        rw [hcount] at hlt
        obtain ⟨n,u,hrun,hu⟩ := ih _ hlt (h.fetch hlimit) rfl
        exact ⟨n + 1,u,(run_cons_of hstep _).trans hrun,hu⟩

end KeysetWorld.Sound

private theorem seen_of_fetches {s t : KeysetWorld} {es : List KeysetEvent} (hseen : s.seen = [])
    (hes : ∀ e ∈ es, e = .fetch) (hrun : run (keysetStep limit) s es = some t) :
    ∀ events ∈ t.seen, events = s.events := by
  have hstart : s.events = s.events ∧ ∀ events ∈ s.seen, events = s.events := by
    rw [hseen]
    exact ⟨rfl,nofun⟩
  have hinv : t.events = s.events ∧ ∀ events ∈ t.seen, events = s.events := by
    apply (along_of_forall hes s).invariant hrun hstart
    intro w e w' hw he hstep
    subst he
    simp only [keysetStep] at hstep
    split at hstep
    · cases hstep
    · cases hstep
      exact ⟨hw.1,forall_append_next hw.2 hw.1⟩
  exact hinv.2

structure KeysetWorld.Delivers (w : KeysetWorld) : Prop where
  sorted : w.delivered.Pairwise fun r q => (cursorFromRow r).key < (cursorFromRow q).key
  nodup : w.delivered.Nodup
  complete : w.finished = true → ∀ event : ActivityEvent,
    (∀ events ∈ w.seen, event ∈ events.rows) → w.delivered.count event.row = 1

theorem keysetWalk_delivers {s t : KeysetWorld} {es : List KeysetEvent} (hlimit : 0 < limit)
    (hfresh : s.Fresh) (hwhole : s.events.Whole)
    (hinserts : Along (keysetStep limit) (fun _ e => e.Whole) s es)
    (hrun : run (keysetStep limit) s es = some t) :
    t.Delivers ∧
      ((∀ e ∈ es, e = .fetch) → t.finished = true →
        t.delivered = (orderBy ActivityEvent.key s.events.rows).map ActivityEvent.row) ∧
      ∃ n u, run (keysetStep limit) t (List.replicate n .fetch) = some u ∧ u.finished = true := by
  obtain ⟨walk,hsound⟩ := (KeysetWorld.Sound.start hfresh hwhole).run hlimit hinserts hrun
  refine ⟨⟨hsound.sorted,hsound.nodup,?_⟩,?_,hsound.finishes hlimit⟩
  · intro hfinished event hpresent
    apply List.count_eq_one_of_mem hsound.nodup
    rw [hsound.refines.delivered]
    exact List.mem_map_of_mem (hsound.mem_of_present hfinished hpresent)
  · intro hes hfinished
    have hsame := seen_of_fetches hfresh.seen hes hrun
    rw [hsound.refines.delivered]
    congr 1
    apply hsound.faithful.eq_orderBy s.events.keys
    intro event
    constructor
    · intro hevent
      obtain ⟨events,hseen,hmem⟩ := hsound.stored event hevent
      rw [hsame events hseen] at hmem
      exact hmem
    · intro hevent
      apply hsound.mem_of_present hfinished
      intro events hseen
      rw [hsame events hseen]
      exact hevent

def beforeWalk : KeysetWorld where
  events := { rows := [login] }

def logout : ActivityEvent := ⟨2,"77b0","maria","deleted","incident","7",1735732800001000⟩

/-- The row of the cursor is deleted, and another one comes in after it. -/
theorem deletedCursor_delivers : ∃ t,
    run (keysetStep 1) beforeWalk [.fetch,.delete 1,.insert logout,.fetch,.fetch] = some t ∧
      t.Delivers := by
  have hend : (run (keysetStep 1) beforeWalk
      [.fetch,.delete 1,.insert logout,.fetch,.fetch]).any KeysetWorld.finished = true := by decide
  obtain ⟨t,hrun,_⟩ := exists_run_of_any hend
  have hdelivers := keysetWalk_delivers (by decide) ⟨rfl,rfl,rfl,rfl⟩ (by decide) (by decide) hrun
  exact ⟨t,hrun,hdelivers.1⟩

/-- A row inserted between two milliseconds is delivered with every page from then on. -/
theorem microsecondInsert_deliveredTwice : ∃ t,
    run (keysetStep 1) beforeWalk
      [.fetch,.insert { logout with createdAt := 1735732800001500 },.fetch,.fetch] = some t ∧
      beforeWalk.events.Whole ∧ ¬ t.delivered.Nodup := by
  have hend : (run (keysetStep 1) beforeWalk
      [.fetch,.insert { logout with createdAt := 1735732800001500 },.fetch,.fetch]).any
        (fun t => decide (¬ t.delivered.Nodup)) = true := by decide
  obtain ⟨t,hrun,htwice,_⟩ := exists_run_of_any hend
  exact ⟨t,hrun,by decide,of_decide_eq_true htwice⟩

end SystemsLab.Pagination
