import SystemsLab.Backfill.LoyaltyPoints
import Mathlib.Algebra.GroupWithZero.Nat

/-!
# Interrupted batches against a single update

A batch writes only rows that are still `NULL`, and what it writes depends on a column that
nobody changes. So a row ends as the single update would leave it, whichever run gets to it, and
the number of rows that are left is what makes the last run come to its end.
-/

namespace SystemsLab.Backfill

variable {batchSize : Nat} {orders : List OrderRow} {order : OrderRow}

private theorem pending_of_inBatch (hids : (orders.map OrderRow.id).Nodup) (horder : order ∈ orders)
    (h : inBatch batchSize orders order = true) : order.pending = true := by
  obtain ⟨selected,hselected,hid⟩ := List.mem_map.mp (of_decide_eq_true h)
  have hmem := mem_selectOrdered hselected
  obtain rfl : selected = order := eq_of_key_eq hids hmem.1 horder hid
  exact hmem.2

private theorem not_pending_setPoints (order : OrderRow) : order.setPoints.pending = false := rfl

private theorem countP_updateBatch (batchSize : Nat) (hids : (orders.map OrderRow.id).Nodup) :
    (updateBatch batchSize orders).countP OrderRow.pending + rowCount batchSize orders =
      orders.countP OrderRow.pending :=
  countP_updateWhere_add (fun _ => pending_of_inBatch hids) not_pending_setPoints

private theorem map_id_updateBatch (batchSize : Nat) (orders : List OrderRow) :
    (updateBatch batchSize orders).map OrderRow.id = orders.map OrderRow.id :=
  map_updateWhere (f := OrderRow.setPoints) OrderRow.id (fun _ => rfl) orders

private theorem countP_pending_of_rowCount (hsize : 1 ≤ batchSize)
    (h : rowCount batchSize orders = 0) :
    orders.countP OrderRow.pending = 0 := by
  rw [rowCount,List.countP_eq_zero] at h
  have hnil : selectOrdered OrderRow.pending OrderRow.id batchSize orders = [] := by
    by_contra hne
    obtain ⟨order,hselected⟩ := List.exists_mem_of_ne_nil _ hne
    have hmem := (mem_selectOrdered hselected).1
    exact h order hmem (decide_eq_true (List.mem_map_of_mem hselected))
  rw [List.countP_eq_zero]
  intro order horder
  rw [(selectOrdered_eq_nil hsize).mp hnil order horder]
  nofun

/-- What has become of the row `before`, if batches have written it `n` times. -/
def OrderRow.Follows (before : OrderRow) (n : Nat) (order : OrderRow) : Prop :=
  order.amountCents = before.amountCents ∧
    (order.loyaltyPoints = before.loyaltyPoints ∧ n = 0 ∨
      before.loyaltyPoints = none ∧ order.loyaltyPoints = before.setPoints.loyaltyPoints ∧ n = 1)

private theorem OrderRow.Follows.setPoints {before : OrderRow} {n : Nat}
    (h : before.Follows n order)
    (hpending : order.pending = true) : before.Follows (n + 1) order.setPoints := by
  have hnone : order.loyaltyPoints = none := by simpa [OrderRow.pending] using hpending
  rcases h with ⟨hamount,⟨hsame,hn⟩ | ⟨_,hset,_⟩⟩
  · refine ⟨hamount,.inr ⟨hsame.symm.trans hnone,?_,by rw [hn]⟩⟩
    show some (order.amountCents / 100) = some (before.amountCents / 100)
    rw [hamount]
  · rw [hnone] at hset
    cases hset

namespace BackfillWorld

/-- The rows that all runs together have updated. -/
def rowsUpdated (w : BackfillWorld) : Nat :=
  (w.ended.map fun run => run.1.rowsBackfilled).sum +
    (w.current.map BackfillRun.rowsBackfilled).getD 0

def pending (w : BackfillWorld) : Nat := w.orders.countP OrderRow.pending

/-- Some run has returned. -/
def Completed (w : BackfillWorld) : Prop := ∃ run, (run,BackfillOutcome.returned) ∈ w.ended

structure Sound (original : List OrderRow) (w : BackfillWorld) : Prop where
  ids : (w.orders.map OrderRow.id).Nodup
  length : w.orders.length = original.length
  follows : ∀ i (before : OrderRow), original[i]? = some before →
    ∃ order, w.orders[i]? = some order ∧ before.Follows (w.writes i) order
  counted : w.rowsUpdated + w.pending = original.countP OrderRow.pending
  completed : w.Completed → w.pending = 0
  size : ∀ run, w.current = some run → 1 ≤ run.options.batchSize

variable {original : List OrderRow} {w w' : BackfillWorld} {run : BackfillRun}

private theorem rowsUpdated_finish (w : BackfillWorld) (run : BackfillRun)
    (outcome : BackfillOutcome) :
    (w.finish run outcome).rowsUpdated =
      (w.ended.map fun run => run.1.rowsBackfilled).sum + run.rowsBackfilled := by
  simp [rowsUpdated,finish]

private theorem rowsUpdated_of_current (h : w.current = some run) :
    w.rowsUpdated =
      (w.ended.map fun run => run.1.rowsBackfilled).sum + run.rowsBackfilled := by
  simp [rowsUpdated,h]

private theorem completed_finish {outcome : BackfillOutcome} :
    (w.finish run outcome).Completed ↔ w.Completed ∨ outcome = .returned := by
  simp [Completed,finish,exists_or,eq_comm]

namespace Sound

private theorem finish (h : w.Sound original) (hcurrent : w.current = some run)
    {outcome : BackfillOutcome} (hreturned : outcome = .returned → w.pending = 0) :
    (w.finish run outcome).Sound original := by
  refine ⟨h.ids,h.length,h.follows,?_,?_,nofun⟩
  · have hcounted := h.counted
    rw [rowsUpdated_of_current hcurrent] at hcounted
    rw [rowsUpdated_finish]
    exact hcounted
  · intro hcompleted
    exact (completed_finish.mp hcompleted).elim h.completed hreturned

theorem committed (h : w.Sound original) (hcurrent : w.current = some run) :
    { w with
      orders := updateBatch run.options.batchSize w.orders
      writes := fun i => w.writes i +
        if (w.orders[i]?).any (inBatch run.options.batchSize w.orders) then 1 else 0
      current := some { run with
        batches := run.batches + 1
        rowsBackfilled := run.rowsBackfilled + rowCount run.options.batchSize w.orders } }.Sound
      original := by
  have hcount := countP_updateBatch run.options.batchSize h.ids
  refine ⟨?_,?_,?_,?_,?_,?_⟩
  · show ((updateBatch _ w.orders).map OrderRow.id).Nodup
    rw [map_id_updateBatch]
    exact h.ids
  · simp [updateBatch,updateWhere,h.length]
  · intro i before hbefore
    obtain ⟨order,horder,hfollows⟩ := h.follows i before hbefore
    show ∃ order, (updateBatch _ w.orders)[i]? = some order ∧ _
    unfold updateBatch
    rw [getElem?_updateWhere,horder]
    cases hhit : inBatch run.options.batchSize w.orders order with
    | true =>
      have hpending := pending_of_inBatch h.ids (List.mem_of_getElem? horder) hhit
      refine ⟨order.setPoints,by simp [hhit],?_⟩
      simpa [horder,hhit] using hfollows.setPoints hpending
    | false =>
      refine ⟨order,by simp [hhit],?_⟩
      simpa [horder,hhit] using hfollows
  · have hcounted := h.counted
    rw [rowsUpdated_of_current hcurrent] at hcounted
    rw [rowsUpdated_of_current rfl]
    dsimp only [pending] at hcounted ⊢
    omega
  · intro hcompleted
    have hpending := h.completed hcompleted
    dsimp only [pending] at hpending ⊢
    omega
  · intro run' hrun'
    cases hrun'
    exact h.size run hcurrent

private theorem afterBatch (h : { w with current := some run }.Sound original) :
    (w.afterBatch run).Sound original := by
  unfold BackfillWorld.afterBatch
  split
  · exact h
  · split
    · exact h.finish rfl nofun
    · exact h

private theorem batch (h : w.Sound original) (hcurrent : w.current = some run) :
    (w.batch run).Sound original := by
  unfold BackfillWorld.batch
  dsimp only
  split
  · rename_i hcount
    exact h.finish hcurrent fun _ => countP_pending_of_rowCount (h.size run hcurrent) hcount
  · exact afterBatch (h.committed hcurrent)

private theorem write (h : w.Sound original) {change : OrderRow → OrderRow}
    (hchange : w.Admits change) :
    { w with orders := w.orders.map change }.Sound original := by
  have hsame : (w.orders.map change).countP OrderRow.pending = w.orders.countP OrderRow.pending := by
    rw [List.countP_map]
    apply List.countP_congr
    intro order horder
    simp [OrderRow.pending,(hchange.1 order horder).2]
  refine ⟨hchange.2,?_,?_,?_,?_,h.size⟩
  · simp [h.length]
  · intro i before hbefore
    obtain ⟨order,horder,hamount,hpoints⟩ := h.follows i before hbefore
    have hkeep := hchange.1 order (List.mem_of_getElem? horder)
    refine ⟨change order,by simp [horder],hkeep.1.trans hamount,?_⟩
    rw [hkeep.2]
    exact hpoints
  · show w.rowsUpdated + (w.orders.map change).countP OrderRow.pending = _
    rw [hsame]
    exact h.counted
  · intro hcompleted
    exact hsame.trans (h.completed hcompleted)

end Sound

/-- The batch sizes of the claimed runs. -/
def PositiveBatches : BackfillEvent → Prop
  | .start options => 1 ≤ options.batchSize
  | _ => True

theorem Sound.step (h : w.Sound original) {e : BackfillEvent} (he : PositiveBatches e)
    (hstep : backfillStep w e = some w') : w'.Sound original := by
  cases e with
  | start options =>
    cases hcurrent : w.current with
    | some run =>
      simp only [backfillStep,hcurrent] at hstep
      cases hstep
    | none =>
      simp only [backfillStep,hcurrent] at hstep
      cases hstep
      refine ⟨h.ids,h.length,h.follows,?_,h.completed,?_⟩
      · have hcounted := h.counted
        simpa [rowsUpdated,pending,hcurrent] using hcounted
      · intro run hrun
        cases hrun
        exact he
  | batch =>
    obtain ⟨run,hcurrent,rfl⟩ := Option.map_eq_some_iff.mp hstep
    exact h.batch hcurrent
  | crash =>
    obtain ⟨run,hcurrent,rfl⟩ := Option.map_eq_some_iff.mp hstep
    exact h.finish hcurrent nofun
  | write change =>
    simp only [backfillStep] at hstep
    split at hstep
    · rename_i hchange
      cases hstep
      exact h.write hchange
    · cases hstep

theorem Sound.of_run {es : List BackfillEvent} (h : w.Sound original)
    (hsizes : Along backfillStep (fun _ e => PositiveBatches e) w es)
    (hrun : SystemsLab.run backfillStep w es = some w') : w'.Sound original := by
  apply hsizes.invariant hrun h
  intro v e v' hv he hstep
  exact hv.step he hstep

/-- A run goes on, and other clients write. -/
def Undisturbed : BackfillEvent → Prop
  | .batch => True
  | .write _ => True
  | _ => False

private theorem positive_of_undisturbed {e : BackfillEvent} (h : Undisturbed e) :
    PositiveBatches e := by
  cases e with
  | start options => cases h
  | batch => trivial
  | crash => trivial
  | write change => trivial

def isBatch : BackfillEvent → Bool
  | .batch => true
  | _ => false

/-- Each round leaves fewer rows to update, or is the last one. -/
theorem Sound.pending_batch (h : w.Sound original)
    (hgoesOn : (w.batch run).current.isSome) : (w.batch run).pending < w.pending := by
  have hcount := countP_updateBatch run.options.batchSize h.ids
  unfold BackfillWorld.batch at hgoesOn ⊢
  dsimp only at hgoesOn ⊢
  split
  · rename_i hzero
    rw [if_pos hzero] at hgoesOn
    cases hgoesOn
  · rename_i hpositive
    have hpending : ∀ (v : BackfillWorld) (run : BackfillRun),
        (v.afterBatch run).pending = v.pending := by
      intro v run
      unfold BackfillWorld.afterBatch
      split
      · rfl
      · split <;> rfl
    rw [hpending]
    dsimp only [pending]
    omega

private theorem pending_write {change : OrderRow → OrderRow} (hchange : w.Admits change) :
    { w with orders := w.orders.map change }.pending = w.pending := by
  dsimp only [pending]
  rw [List.countP_map]
  apply List.countP_congr
  intro order horder
  simp [OrderRow.pending,(hchange.1 order horder).2]

/-- The rounds that are left, counting the one that finds nothing. -/
def roundsLeft (w : BackfillWorld) : Nat :=
  if w.current.isSome then w.pending + 1 else 0

theorem Sound.roundsLeft_step (h : w.Sound original) {e : BackfillEvent} (he : Undisturbed e)
    (hstep : backfillStep w e = some w') :
    w'.roundsLeft + (if isBatch e then 1 else 0) ≤ w.roundsLeft := by
  cases e with
  | start options => cases he
  | crash => cases he
  | batch =>
    obtain ⟨run,hcurrent,rfl⟩ := Option.map_eq_some_iff.mp hstep
    simp only [roundsLeft,isBatch,hcurrent,Option.isSome_some,if_true]
    by_cases hgoesOn : (w.batch run).current.isSome = true
    · have hlt := h.pending_batch hgoesOn
      rw [if_pos hgoesOn]
      omega
    · rw [if_neg hgoesOn]
      omega
  | write change =>
    simp only [backfillStep] at hstep
    split at hstep
    · rename_i hchange
      cases hstep
      have hsame := pending_write hchange
      simp [roundsLeft,isBatch,hsame]
    · cases hstep

/-- A run that is still going on has made no more rounds than there were rows to update. -/
theorem Sound.batches_le {es : List BackfillEvent} (h : w.Sound original)
    (hes : ∀ e ∈ es, Undisturbed e) (hrun : SystemsLab.run backfillStep w es = some w')
    (hactive : w'.current.isSome) : es.countP isBatch ≤ w.pending := by
  have hbound := run_variant isBatch roundsLeft
    (fun v e v' hv he hstep => hv.step (positive_of_undisturbed he) hstep)
    (fun v e v' hv he hstep => hv.roundsLeft_step he hstep) h (along_of_forall hes w) hrun
  have hleft : w'.roundsLeft = w'.pending + 1 := if_pos hactive
  have hatMost : w.roundsLeft ≤ w.pending + 1 := by
    unfold roundsLeft
    split <;> omega
  omega

/-- A run without `maxBatches` stays so until it returns. -/
def Completing (w : BackfillWorld) : Prop :=
  w.Completed ∨ ∃ run, w.current = some run ∧ run.options.maxBatches = none

theorem Completing.step (h : w.Completing) {e : BackfillEvent} (he : Undisturbed e)
    (hstep : backfillStep w e = some w') : w'.Completing := by
  cases e with
  | start options => cases he
  | crash => cases he
  | write change =>
    simp only [backfillStep] at hstep
    split at hstep
    · cases hstep
      exact h
    · cases hstep
  | batch =>
    obtain ⟨run,hcurrent,rfl⟩ := Option.map_eq_some_iff.mp hstep
    unfold BackfillWorld.batch
    dsimp only
    split
    · exact .inl (completed_finish.mpr (.inr rfl))
    · rcases h with ⟨done,hdone⟩ | ⟨run',hrun',hoptions⟩
      · left
        unfold BackfillWorld.afterBatch
        split
        · exact ⟨done,hdone⟩
        · split
          · exact completed_finish.mpr (.inl ⟨done,hdone⟩)
          · exact ⟨done,hdone⟩
      · right
        rw [hcurrent] at hrun'
        cases hrun'
        unfold BackfillWorld.afterBatch
        rw [hoptions]
        exact ⟨_,rfl,hoptions⟩

/-- Once its process stays up, a run without `maxBatches` comes to its end. -/
def Terminates (w : BackfillWorld) : Prop :=
  ∀ run, w.current = some run → run.options.maxBatches = none →
    (backfillStep w .batch).isSome ∧ ∀ es v, (∀ e ∈ es, Undisturbed e) →
      SystemsLab.run backfillStep w es = some v →
        v.Completed ∨ v.current.isSome ∧ es.countP isBatch ≤ w.pending

private theorem Sound.terminates (h : w.Sound original) : w.Terminates := by
  intro run hcurrent hoptions
  refine ⟨by simp [backfillStep,hcurrent],?_⟩
  intro es v hes hrun
  have hstart : w.Completing := .inr ⟨run,hcurrent,hoptions⟩
  have hcompleting : v.Completing := by
    apply (along_of_forall hes w).invariant hrun hstart
    intro u e u' hu he hstep
    exact hu.step he hstep
  rcases hcompleting with hcompleted | ⟨run',hrun',_⟩
  · exact .inl hcompleted
  · have hactive : v.current.isSome := by rw [hrun']; rfl
    exact .inr ⟨hactive,h.batches_le hes hrun hactive⟩

/-- Before the first run. -/
structure Fresh (w : BackfillWorld) : Prop where
  ids : (w.orders.map OrderRow.id).Nodup
  current : w.current = none
  ended : w.ended = []
  writes : ∀ i, w.writes i = 0

theorem Sound.start (h : w.Fresh) : w.Sound w.orders := by
  refine ⟨h.ids,rfl,?_,?_,?_,?_⟩
  · intro i before hbefore
    exact ⟨before,hbefore,rfl,.inl ⟨rfl,h.writes i⟩⟩
  · simp [rowsUpdated,pending,h.current,h.ended]
  · intro hcompleted
    obtain ⟨run,hmem⟩ := hcompleted
    rw [h.ended] at hmem
    cases hmem
  · intro run hrun
    rw [h.current] at hrun
    cases hrun

private theorem Sound.not_pending (h : w.Sound original) (hcompleted : w.Completed)
    {order : OrderRow}
    (horder : order ∈ w.orders) : order.loyaltyPoints ≠ none := by
  intro hnone
  have hzero := List.countP_eq_zero.mp (h.completed hcompleted) order horder
  exact hzero (by rw [OrderRow.pending,hnone]; rfl)

private theorem pending_eq_false {order : OrderRow} (h : order.loyaltyPoints ≠ none) :
    order.pending = false := by
  rw [OrderRow.pending,Option.isNone_eq_false_iff]
  exact Option.isSome_iff_ne_none.mpr h

private theorem Sound.writes_eq (h : w.Sound original) (hcompleted : w.Completed) {i : Nat}
    {before : OrderRow} (hbefore : original[i]? = some before) :
    w.writes i = if before.pending then 1 else 0 := by
  obtain ⟨order,horder,_,hrow⟩ := h.follows i before hbefore
  have hset := h.not_pending hcompleted (List.mem_of_getElem? horder)
  rcases hrow with ⟨hsame,hn⟩ | ⟨hnone,_,hn⟩
  · rw [hsame] at hset
    rw [hn,pending_eq_false hset]
    rfl
  · rw [hn,OrderRow.pending,hnone]
    rfl

private theorem Sound.column_eq (h : w.Sound original) (hcompleted : w.Completed) :
    w.orders.map OrderRow.loyaltyPoints =
      (runNaiveGiantUpdate original).map OrderRow.loyaltyPoints := by
  apply List.ext_getElem?
  intro i
  rw [List.getElem?_map,List.getElem?_map,runNaiveGiantUpdate,getElem?_updateWhere]
  cases hbefore : original[i]? with
  | none =>
    have hlength := List.getElem?_eq_none_iff.mp hbefore
    rw [← h.length] at hlength
    rw [List.getElem?_eq_none_iff.mpr hlength]
    rfl
  | some before =>
    obtain ⟨order,horder,_,hrow⟩ := h.follows i before hbefore
    have hset := h.not_pending hcompleted (List.mem_of_getElem? horder)
    rw [horder]
    rcases hrow with ⟨hsame,_⟩ | ⟨hnone,hpoints,_⟩
    · rw [hsame] at hset
      simp [hsame,pending_eq_false hset]
    · have hpending : before.pending = true := by simp [OrderRow.pending,hnone]
      simp [hpoints,hpending]

end BackfillWorld

/-- The column is that of the single update, and each row it would write was written once. -/
structure BackfillWorld.Refines (original : List OrderRow) (w : BackfillWorld) : Prop where
  column : w.orders.map OrderRow.loyaltyPoints =
    (runNaiveGiantUpdate original).map OrderRow.loyaltyPoints
  writes : ∀ i (before : OrderRow), original[i]? = some before →
    w.writes i = if before.pending then 1 else 0
  rowsUpdated : w.rowsUpdated = original.countP OrderRow.pending

theorem backfillLoyaltyPoints_refines {s t : BackfillWorld} {es : List BackfillEvent}
    (hfresh : s.Fresh) (hsizes : Along backfillStep (fun _ e => BackfillWorld.PositiveBatches e) s es)
    (hrun : run backfillStep s es = some t) :
    t.Terminates ∧ (t.Completed → t.Refines s.orders) := by
  have hsound := (BackfillWorld.Sound.start hfresh).of_run hsizes hrun
  refine ⟨hsound.terminates,fun hcompleted => ⟨?_,?_,?_⟩⟩
  · exact hsound.column_eq hcompleted
  · exact fun i before => hsound.writes_eq hcompleted
  · have hcounted := hsound.counted
    rw [hsound.completed hcompleted] at hcounted
    exact hcounted

def pendingOrders : BackfillWorld where
  orders := [⟨3,"9c1f","ana@example.com",4250,"paid",0,none⟩,
    ⟨1,"e0d2","bo@example.com",-150,"refunded",0,none⟩,
    ⟨2,"77aa","cy@example.com",999,"paid",0,some 5⟩]

/-- A run stops at `maxBatches`, and another one finishes the work. -/
theorem twoRuns_refine : ∃ t,
    run backfillStep pendingOrders [.start ⟨1,0,some 1⟩,.batch,
      .write fun order => { order with status := "archived" },.start ⟨1000,50,none⟩,.batch,.batch] =
        some t ∧ t.Completed ∧ t.Refines pendingOrders.orders := by
  have hend : (run backfillStep pendingOrders [.start ⟨1,0,some 1⟩,.batch,
      .write fun order => { order with status := "archived" },.start ⟨1000,50,none⟩,.batch,
        .batch]).any (fun t => t.ended.any fun run => run.2 = .returned) = true := by decide
  obtain ⟨t,hrun,hdone,_⟩ := exists_run_of_any hend
  obtain ⟨⟨done,outcome⟩,hmem,houtcome⟩ := List.any_eq_true.mp hdone
  obtain rfl : outcome = .returned := of_decide_eq_true houtcome
  have hrefines := backfillLoyaltyPoints_refines ⟨by decide,rfl,rfl,fun _ => rfl⟩
    (along_of_forall (by simp [BackfillWorld.PositiveBatches]) _) hrun
  exact ⟨t,hrun,⟨done,hmem⟩,hrefines.2 ⟨done,hmem⟩⟩

end SystemsLab.Backfill
