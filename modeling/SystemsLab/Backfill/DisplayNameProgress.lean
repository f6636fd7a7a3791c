import SystemsLab.Backfill.DisplayNameSafety

/-!
# A backfill comes to its end

The rows that are neither set nor in hand are what a backfill has left to choose from. Only its
own steps can put them in its hand, and nobody adds to them, so three steps for each of them and
two more are all that it can take.
-/

namespace SystemsLab.Backfill

variable {w w' : CustomerWorld} {n m : Nat} {who : Option Nat} {c c' : CustomerCall} {id : Int}

private theorem countP_le_of_mem {ids ids' : List Int} {p q : Int → Bool} (hn : ids'.Nodup)
    (h : ∀ id ∈ ids', q id = true → id ∈ ids ∧ p id = true) : ids'.countP q ≤ ids.countP p := by
  rw [List.countP_eq_length_filter,List.countP_eq_length_filter]
  apply (List.subperm_of_subset (hn.filter q) ?_).length_le
  intro id hid
  obtain ⟨hmem,hq⟩ := List.mem_filter.mp hid
  exact List.mem_filter.mpr (h id hmem hq)

namespace CustomerWorld

def pendingCount (w : CustomerWorld) : Nat := w.ids.countP w.isPending

/-- Neither set, nor locked by `n`, nor about to be locked by it. -/
def isLeft (w : CustomerWorld) (n : Nat) (remaining : List Int) (id : Int) : Bool :=
  w.isPending id && decide (id ∉ remaining) && decide (w.rows.holder id ≠ some n)

def leftBy (w : CustomerWorld) (n : Nat) (remaining : List Int) : Nat :=
  w.ids.countP (w.isLeft n remaining)

theorem isLeft_iff {remaining : List Int} : w.isLeft n remaining id = true ↔
    w.isPending id = true ∧ id ∉ remaining ∧ w.rows.holder id ≠ some n := by
  simp [isLeft,and_assoc]

/-- A bound on the steps that the backfill `n` still takes. -/
def phaseSteps (w : CustomerWorld) (n : Nat) : BatchPhase → Nat
  | .selecting => 3 * w.pendingCount + 2
  | .updating [] 0 => 1
  | .updating remaining _ => remaining.length + 1 + (3 * w.leftBy n remaining + 2)
  | _ => 0

private theorem phaseSteps_updating {remaining : List Int} {updated : Nat}
    (h : remaining ≠ [] ∨ updated ≠ 0) : w.phaseSteps n (.updating remaining updated) =
      remaining.length + 1 + (3 * w.leftBy n remaining + 2) := by
  cases remaining with
  | cons first rest => rfl
  | nil =>
    cases updated with
    | zero => exact (h.elim (absurd rfl) (absurd rfl))
    | succ updated => rfl

def stepsLeft (w : CustomerWorld) (n : Nat) : Nat :=
  match w.call n with
  | some (.backfill _ _ _ phase) => w.phaseSteps n phase
  | _ => 0

private theorem stepsLeft_eq {batchSize batches rowsBackfilled : Nat} {phase : BatchPhase}
    (hc : w.call n = some (.backfill batchSize batches rowsBackfilled phase)) :
    w.stepsLeft n = w.phaseSteps n phase := by
  rw [stepsLeft,hc]

theorem holder_of_moves {rows : RowVersions Int Nat Customer} (hmoves : c.Moves w m c' rows)
    (hm : m ≠ n) (hholder : w.rows.holder id = some n) : rows.holder id = some n := by
  have hput : ∀ k customer customer', (w.rows k).version m = some customer →
      (w.rows.put m k customer').holder id = some n := by
    intro k customer customer' hversion
    rw [RowVersions.holder_put]
    split
    · rename_i heq
      subst heq
      rcases RowVersions.holder_of_version hversion with hfree | hown
      · rw [hholder] at hfree
        cases hfree
      · rw [hholder] at hown
        exact absurd (Option.some.inj hown).symm hm
    · exact hholder
  have hother : w.rows.holder id ≠ some m := by
    rw [hholder]
    exact fun heq => hm (Option.some.inj heq).symm
  cases hmoves with
  | skipped => exact hholder
  | selected => exact hholder
  | renamed k fullName customer _ hversion => exact hput k customer _ hversion
  | copied _ _ _ _ _ k customer _ hversion => exact hput k customer _ hversion
  | committed => rw [RowVersions.holder_commit,if_neg hother,hholder]
  | aborted => rw [RowVersions.holder_rollback,if_neg hother,hholder]

theorem holder_of_move (h : w.Sound) (hm : CustomerMove w who w') (hwho : who ≠ some n)
    (hholder : w.rows.holder id = some n) : w'.rows.holder id = some n := by
  cases hm with
  | inserted k fullName email country hfresh =>
    have hne : id ≠ k := by
      rintro rfl
      obtain ⟨⟨u,v⟩,hheld,_⟩ := Option.map_eq_some_iff.mp hholder
      exact hfresh (h.lockStep.held id u v hheld).1
    have hsame : (w.insertCustomer k fullName email country).rows id = w.rows id :=
      RowVersions.overwrite_of_ne _ _ hne
    rw [RowVersions.holder,hsame]
    exact hholder
  | renameStarted => exact hholder
  | backfillStarted => exact hholder
  | moved m c c' rows hc hmoves =>
    exact holder_of_moves hmoves (fun heq => hwho (congrArg some heq)) hholder

theorem call_of_move (hm : CustomerMove w who w') (hwho : who ≠ some n) (hc : w.call n = some c) :
    w'.call n = some c := by
  cases hm with
  | inserted => exact hc
  | renameStarted m id fullName hnone => exact update_of_some hnone hc
  | backfillStarted m batchSize hnone => exact update_of_some hnone hc
  | moved m d d' rows hd hmoves =>
    exact (Function.update_of_ne (fun heq => hwho (congrArg some heq.symm)) _ _).trans hc

private theorem Sound.pendingCount_le (h : w.Sound) (hm : CustomerMove w who w') :
    w'.pendingCount ≤ w.pendingCount :=
  countP_le_of_mem (h.move hm).ids (h.lockStep.advances hm).pending

private theorem Sound.leftBy_le (h : w.Sound) (hm : CustomerMove w who w') (hwho : who ≠ some n)
    (remaining : List Int) : w'.leftBy n remaining ≤ w.leftBy n remaining := by
  apply countP_le_of_mem (h.move hm).ids
  intro id hid hleft
  obtain ⟨hpending,hremaining,hholder⟩ := isLeft_iff.mp hleft
  obtain ⟨hid',hpending'⟩ := (h.lockStep.advances hm).pending id hid hpending
  refine ⟨hid',isLeft_iff.mpr ⟨hpending',hremaining,?_⟩⟩
  exact fun hheld => hholder (holder_of_move h hm hwho hheld)

private theorem Sound.stepsLeft_other (h : w.Sound) (hm : CustomerMove w who w')
    (hwho : who ≠ some n)
    {batchSize batches rowsBackfilled : Nat} {phase : BatchPhase}
    (hc : w.call n = some (.backfill batchSize batches rowsBackfilled phase)) :
    w'.stepsLeft n ≤ w.stepsLeft n := by
  rw [stepsLeft_eq hc,stepsLeft_eq (call_of_move hm hwho hc)]
  cases phase with
  | returned => exact le_rfl
  | threw => exact le_rfl
  | selecting =>
    have hcount := h.pendingCount_le hm
    dsimp only [phaseSteps]
    omega
  | updating remaining updated =>
    have hleft := h.leftBy_le hm hwho remaining
    by_cases hlast : remaining ≠ [] ∨ updated ≠ 0
    · rw [phaseSteps_updating hlast,phaseSteps_updating hlast]
      omega
    · rw [not_or,not_not,not_not] at hlast
      obtain ⟨rfl,rfl⟩ := hlast
      exact le_rfl

private theorem Sound.leftBy_add_le (h : w.Sound) (n batchSize : Nat) :
    w.leftBy n (w.pendingIds batchSize) + (w.pendingIds batchSize).length ≤ w.pendingCount := by
  have hselected : (w.pendingIds batchSize).Nodup := selectOrdered_nodup h.ids
  rw [leftBy,pendingCount,List.countP_eq_length_filter,List.countP_eq_length_filter,
    ← List.length_append]
  apply (List.subperm_of_subset ?_ ?_).length_le
  · rw [List.nodup_append]
    refine ⟨h.ids.filter _,hselected,?_⟩
    rintro id hid _ hid' rfl
    exact (isLeft_iff.mp (List.mem_filter.mp hid).2).2.1 hid'
  · intro id hid
    rcases List.mem_append.mp hid with hleft | hchosen
    · obtain ⟨hmem,hleft⟩ := List.mem_filter.mp hleft
      exact List.mem_filter.mpr ⟨hmem,(isLeft_iff.mp hleft).1⟩
    · exact List.mem_filter.mpr (mem_selectOrdered hchosen)

private theorem Sound.stepsLeft_select (h : w.Sound) {batchSize : Nat} :
    w.phaseSteps n (.updating (w.pendingIds batchSize) 0) < w.phaseSteps n .selecting := by
  have hsplit := h.leftBy_add_le n batchSize
  cases hids : w.pendingIds batchSize with
  | nil =>
    show 1 < 3 * w.pendingCount + 2
    omega
  | cons first rest =>
    rw [← hids,phaseSteps_updating (.inl (by rw [hids]; nofun))]
    have hlength : 1 ≤ (w.pendingIds batchSize).length := by
      rw [hids]
      exact Nat.succ_pos _
    dsimp only [phaseSteps]
    omega

private theorem Sound.stepsLeft_copy (h : w.Sound) {customer' : Customer} {remaining : List Int}
    {updated : Nat} (hid : id ∈ remaining) :
    { w.put n c' with rows := w.rows.put n id customer' }.phaseSteps n
        (.updating (remaining.filter (· ≠ id)) (updated + 1)) <
      w.phaseSteps n (.updating remaining updated) := by
  have hlength : (remaining.filter (· ≠ id)).length < remaining.length :=
    List.length_filter_lt_length_iff_exists.mpr ⟨id,hid,by simp⟩
  have hleft : { w.put n c' with rows := w.rows.put n id customer' }.leftBy n
      (remaining.filter (· ≠ id)) ≤ w.leftBy n remaining := by
    apply countP_le_of_mem h.ids
    intro k hk hleft
    obtain ⟨hpending,hremaining,hholder⟩ := isLeft_iff.mp hleft
    have hholder : (w.rows.put n id customer').holder k ≠ some n := hholder
    have hpending : (w.rows.put n id customer' k).committed.displayName.isNone = true := hpending
    rw [RowVersions.holder_put] at hholder
    rw [RowVersions.committed_put] at hpending
    have hne : k ≠ id := by
      rintro rfl
      exact hholder (if_pos rfl)
    rw [if_neg hne] at hholder
    refine ⟨hk,isLeft_iff.mpr ⟨hpending,?_,hholder⟩⟩
    exact fun hmem => hremaining (List.mem_filter.mpr ⟨hmem,by simpa using hne⟩)
  rw [phaseSteps_updating (.inr (Nat.succ_ne_zero updated)),
    phaseSteps_updating (.inl (List.ne_nil_of_mem hid))]
  omega

theorem Sound.pendingCount_commit (h : w.Sound) (n : Nat) :
    w.ids.countP (fun id => (w.rows.commit n id).committed.displayName.isNone) ≤ w.leftBy n [] := by
  apply countP_le_of_mem h.ids
  intro id hid hpending
  rcases w.rows.commit_cases n id with ⟨hsame,hother⟩ | ⟨customer,hheld,hcommit⟩
  · rw [hsame] at hpending
    refine ⟨hid,isLeft_iff.mpr ⟨hpending,List.not_mem_nil,?_⟩⟩
    intro hholder
    obtain ⟨⟨u,v⟩,hheld,rfl⟩ := Option.map_eq_some_iff.mp hholder
    exact hother v hheld
  · rw [hcommit,isPending_eq_false (h.lockStep.held id n customer hheld).2] at hpending
    cases hpending

private theorem Sound.stepsLeft_own (h : w.Sound) {batchSize batches rowsBackfilled : Nat}
    {phase : BatchPhase} {rows : RowVersions Int Nat Customer}
    (hc : w.call n = some (.backfill batchSize batches rowsBackfilled phase))
    (hmoves : (CustomerCall.backfill batchSize batches rowsBackfilled phase).Moves w n c' rows) :
    { w.put n c' with rows }.stepsLeft n < w.stepsLeft n := by
  rw [stepsLeft_eq hc]
  have hself : ∀ rows, { w.put n c' with rows }.call n = some c' :=
    fun _ => Function.update_self _ _ _
  cases hmoves with
  | selected =>
    rw [stepsLeft_eq (hself _)]
    exact h.stepsLeft_select
  | copied _ _ _ remaining updated id customer hid hversion =>
    rw [stepsLeft_eq (hself _)]
    exact h.stepsLeft_copy hid
  | committed hcommits =>
    cases hcommits with
    | returned =>
      rw [stepsLeft_eq (hself _)]
      exact Nat.succ_pos 0
    | again _ _ _ updated =>
      rw [stepsLeft_eq (hself _),phaseSteps_updating (.inr (Nat.succ_ne_zero updated))]
      have hcount := h.pendingCount_commit n
      show 3 * w.ids.countP (fun id => (w.rows.commit n id).committed.displayName.isNone) + 2 <
        0 + 1 + (3 * w.leftBy n [] + 2)
      omega
  | aborted haborts =>
    cases haborts with
    | backfill _ _ _ _ hactive =>
      rw [stepsLeft_eq (hself _)]
      cases phase with
      | returned => cases hactive
      | threw => cases hactive
      | selecting => exact Nat.succ_pos _
      | updating remaining updated =>
        by_cases hlast : remaining ≠ [] ∨ updated ≠ 0
        · rw [phaseSteps_updating hlast]
          exact Nat.succ_pos _
        · rw [not_or,not_not,not_not] at hlast
          obtain ⟨rfl,rfl⟩ := hlast
          exact Nat.succ_pos 0

/-- Some call of `backfillDisplayName`, in whatever phase. -/
def IsBackfill (w : CustomerWorld) (n : Nat) : Prop :=
  ∃ batchSize batches rowsBackfilled phase,
    w.call n = some (.backfill batchSize batches rowsBackfilled phase)

theorem IsBackfill.move (h : w.IsBackfill n) (hm : CustomerMove w who w') : w'.IsBackfill n := by
  obtain ⟨batchSize,batches,rowsBackfilled,phase,hc⟩ := h
  by_cases hwho : who = some n
  · subst hwho
    cases hm with
    | moved _ c c' rows hc' hmoves =>
      rw [hc] at hc'
      cases hc'
      have hself : { w.put n c' with rows }.call n = some c' := Function.update_self _ _ _
      cases hmoves with
      | selected => exact ⟨_,_,_,_,hself⟩
      | copied => exact ⟨_,_,_,_,hself⟩
      | committed hcommits =>
        cases hcommits with
        | returned => exact ⟨_,_,_,_,hself⟩
        | again => exact ⟨_,_,_,_,hself⟩
      | aborted haborts =>
        cases haborts with
        | backfill => exact ⟨_,_,_,_,hself⟩
  · exact ⟨batchSize,batches,rowsBackfilled,phase,call_of_move hm hwho hc⟩

theorem Sound.stepsLeft_step (h : w.Sound) (hn : w.IsBackfill n) {e : CustomerEvent}
    (hm : CustomerMove w e.mover w') :
    w'.stepsLeft n + (if e.mover == some n then 1 else 0) ≤ w.stepsLeft n := by
  obtain ⟨batchSize,batches,rowsBackfilled,phase,hc⟩ := hn
  by_cases hwho : e.mover = some n
  · rw [hwho] at hm ⊢
    cases hm with
    | moved _ c c' rows hc' hmoves =>
      rw [hc] at hc'
      cases hc'
      have hlt := h.stepsLeft_own hc hmoves
      simp only [beq_self_eq_true,if_true]
      exact hlt
  · have hle := h.stepsLeft_other hm hwho hc
    simpa [hwho] using hle

/-- However the others' statements come in between, a backfill takes boundedly many steps. -/
theorem Sound.ownSteps_le (h : w.Sound) (hn : w.IsBackfill n) {es : List CustomerEvent}
    (hsizes : Along customerStep (fun _ e => e.Positive) w es)
    (hrun : run customerStep w es = some w') :
    es.countP (fun e => e.mover == some n) ≤ w.stepsLeft n := by
  have hbound := run_variant (fun e : CustomerEvent => e.mover == some n) (fun v => v.stepsLeft n)
    (fun v e v' (hv : v.Sound ∧ v.IsBackfill n) he hstep =>
      ⟨hv.1.step he hstep,hv.2.move (customerStep_move he hstep)⟩)
    (fun v e v' hv he hstep => hv.1.stepsLeft_step hv.2 (customerStep_move he hstep))
    ⟨h,hn⟩ hsizes hrun
  omega

/-- The next step of the call can be taken, or the row it needs is locked by the open statement of
another call. -/
def GoesOn (w : CustomerWorld) (n : Nat) : Prop :=
  (customerStep w (.select n)).isSome ∨ (customerStep w (.commit n)).isSome ∨
    (∃ id, (customerStep w (.update n id)).isSome) ∨
    ∃ id m c, w.rows.holder id = some m ∧ m ≠ n ∧ w.call m = some c ∧ c.isOpen = true

private theorem Sound.goesOn (h : w.Sound) {batchSize batches rowsBackfilled : Nat}
    {phase : BatchPhase}
    (hc : w.call n = some (.backfill batchSize batches rowsBackfilled phase))
    (hactive : phase.isActive = true) : w.GoesOn n := by
  cases phase with
  | returned => cases hactive
  | threw => cases hactive
  | selecting =>
    left
    simp [customerStep,hc]
  | updating remaining updated =>
    cases remaining with
    | nil =>
      right
      left
      simp [customerStep,hc,commit]
    | cons id rest =>
      right
      right
      by_cases hfree : ∀ m, w.rows.holder id = some m → m = n
      · obtain ⟨customer,hversion⟩ :=
          Option.isSome_iff_exists.mp (RowVersions.version_isSome.mpr hfree)
        exact .inl ⟨id,by simp [customerStep,hc,update,write,hversion]⟩
      · obtain ⟨m,hm⟩ := not_forall.mp hfree
        obtain ⟨hholder,hne⟩ := Classical.not_imp.mp hm
        obtain ⟨c,hcall,hopen⟩ := h.lockStep.holder id m hholder
        exact .inr ⟨id,m,c,hholder,hne,hcall,hopen⟩

/-- What holds of every state: the columns are in lock-step, and a backfill that has returned has
left no row behind. -/
structure Safe (w : CustomerWorld) : Prop where
  lockStep : ∀ id ∈ w.ids, (w.rows id).committed.displayName = none ∨
    (w.rows id).committed.displayName = some (w.rows id).committed.fullName
  returned : ∀ n batchSize batches rowsBackfilled,
    w.call n = some (.backfill batchSize batches rowsBackfilled .returned) →
      ∀ id ∈ w.ids, (w.rows id).committed.displayName = some (w.rows id).committed.fullName

theorem Sound.safe (h : w.Sound) : w.Safe := by
  refine ⟨h.lockStep.committed,?_⟩
  intro n batchSize batches rowsBackfilled hc id hid
  have hset : (w.rows id).committed.displayName.isNone = false := (h.calls n _ hc).2 id hid
  rcases h.lockStep.committed id hid with hnone | hsame
  · rw [hnone] at hset
    cases hset
  · exact hsame

/-- No row that is set becomes `NULL`. -/
def StaysSet (w w' : CustomerWorld) : Prop :=
  ∀ id ∈ w.ids, (w.rows id).committed.displayName ≠ none →
    id ∈ w'.ids ∧ (w'.rows id).committed.displayName ≠ none

private theorem Advances.staysSet (h : w.Advances w') : w.StaysSet w' := by
  intro id hid hset
  refine ⟨h.ids id hid,fun hnone => hset ?_⟩
  have hpending : w'.isPending id = true := by
    rw [isPending,hnone]
    rfl
  exact Option.isNone_iff_eq_none.mp (h.pending id (h.ids id hid) hpending).2

/-- A backfill that is about to choose its rows takes at most three more steps for each row that
is pending, and two. While its loop runs it can go on. -/
structure Terminates (w : CustomerWorld) (n : Nat) : Prop where
  bounded : ∀ batchSize batches rowsBackfilled,
    w.call n = some (.backfill batchSize batches rowsBackfilled .selecting) →
      ∀ es w', Along customerStep (fun _ e => e.Positive) w es → run customerStep w es = some w' →
        es.countP (fun e => e.mover == some n) ≤ 3 * w.pendingCount + 2
  goesOn : ∀ batchSize batches rowsBackfilled (phase : BatchPhase),
    w.call n = some (.backfill batchSize batches rowsBackfilled phase) →
      phase.isActive = true → w.GoesOn n

private theorem Sound.terminates (h : w.Sound) (n : Nat) : w.Terminates n := by
  refine ⟨?_,fun _ _ _ _ hc hactive => h.goesOn hc hactive⟩
  intro batchSize batches rowsBackfilled hc es w' hsizes hrun
  have hsteps := h.ownSteps_le ⟨_,_,_,_,hc⟩ hsizes hrun
  rw [stepsLeft_eq hc] at hsteps
  exact hsteps

/-- Customers from before the migration, some of them backfilled already. -/
structure Fresh (w : CustomerWorld) : Prop where
  ids : w.ids.Nodup
  committed : ∀ id ∈ w.ids, (w.rows id).committed.displayName = none ∨
    (w.rows id).committed.displayName = some (w.rows id).committed.fullName
  held : ∀ id, (w.rows id).held = none
  call : ∀ n, w.call n = none

theorem Fresh.sound (h : w.Fresh) : w.Sound := by
  refine ⟨h.ids,⟨h.committed,?_,?_⟩,?_⟩
  · intro id n customer hheld
    rw [h.held id] at hheld
    cases hheld
  · intro id n hholder
    rw [RowVersions.holder,h.held id] at hholder
    cases hholder
  · intro n c hc
    rw [h.call n] at hc
    cases hc

end CustomerWorld

theorem displayName_backfilled {s t u : CustomerWorld} {es es' : List CustomerEvent}
    (hfresh : s.Fresh) (hsizes : Along customerStep (fun _ e => e.Positive) s es)
    (hrun : run customerStep s es = some t)
    (hsizes' : Along customerStep (fun _ e => e.Positive) t es')
    (hrun' : run customerStep t es' = some u) :
    t.Safe ∧ t.StaysSet u ∧ ∀ n, t.Terminates n := by
  have hsound := (hfresh.sound.of_run hsizes hrun).1
  exact ⟨hsound.safe,(hsound.of_run hsizes' hrun').2.staysSet,hsound.terminates⟩

def beforeMigration : CustomerWorld where
  ids := [2,1]
  rows := fun id =>
    { committed := ⟨if id = 1 then "Ada" else "Bob",none,toString id ++ "@example.com","India"⟩ }

/-- A row is renamed and another one inserted while a backfill runs in batches of one. -/
theorem renamedMeanwhile_backfilled : ∃ t,
    run customerStep beforeMigration [.startBackfill 0 1,.select 0,.startRename 1 1 "Ada L",
      .update 1 1,.commit 1,.update 0 1,.commit 0,.select 0,.insert 3 "Cy" "cy@example.com" "Peru",
      .update 0 2,.commit 0,.select 0,.commit 0] = some t ∧
      t.call 0 = some (.backfill 1 2 2 .returned) ∧ t.Safe := by
  have hend : (run customerStep beforeMigration [.startBackfill 0 1,.select 0,
      .startRename 1 1 "Ada L",.update 1 1,.commit 1,.update 0 1,.commit 0,.select 0,
      .insert 3 "Cy" "cy@example.com" "Peru",.update 0 2,.commit 0,.select 0,.commit 0]).any
        (fun t => t.call 0 = some (.backfill 1 2 2 .returned)) = true := by decide
  obtain ⟨t,hrun,hreturned,_⟩ := exists_run_of_any hend
  have hfresh : beforeMigration.Fresh := ⟨by decide,by decide,fun _ => rfl,fun _ => rfl⟩
  have hsizes : Along customerStep (fun _ e => e.Positive) t [] := trivial
  have hsafe := displayName_backfilled hfresh
    (along_of_forall (by simp [CustomerEvent.Positive]) _) hrun hsizes (run_nil t)
  exact ⟨t,hrun,of_decide_eq_true hreturned,hsafe.1⟩

end SystemsLab.Backfill
