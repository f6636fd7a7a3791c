import SystemsLab.OnCall.GoOffCall

/-!
# Somebody stays on call

Alone, a transaction leaves on call those whom it has counted. So the last one of a serial order
leaves somebody, and in each committed state somebody is left. Whoever is refused has counted
nobody, so all the others are off call.
-/

namespace SystemsLab.OnCall

variable {first w : OnCallWorld} {k : Nat} {c : RetryCall} {t : GoOffCall}

/-- What the world becomes by a step. -/
inductive OnCallMove (w : OnCallWorld) : OnCallEvent → OnCallWorld → Prop
  | started (k : Nat) (staffName : String) (maxAttempts : Option Int) : w.call k = none →
      (∃ row ∈ w.initial, row.id = k ∧ row.team = w.team ∧ row.name = staffName) →
      OnCallMove w (.retryGoOffCall k staffName maxAttempts)
        (w.nextAttempt k { staffName, maxAttempts := maxAttempts.getD 5 })
  | begun (k : Nat) (c : RetryCall) : w.call k = some c → c.phase = .connecting →
      OnCallMove w (.attemptGoOffCall k) (w.put k { c with phase := .counting })
  | counted (k seen : Nat) (c : RetryCall) : w.call k = some c → c.phase = .counting →
      seen ≤ w.commits.length → OnCallMove w (.count k seen) (w.count k seen c)
  | queried (k : Nat) (c : RetryCall) {w' : OnCallWorld} : w.call k = some c →
      w.query k c = some w' → OnCallMove w (.query k) w'
  | conflicted (k : Nat) (c : RetryCall) : w.call k = some c → c.phase.inTransaction = true →
      OnCallMove w (.serializationFailure k) (w.conflict k c)
  | lost (k : Nat) (c : RetryCall) {w' : OnCallWorld} : w.call k = some c →
      w.loseReply k c = some w' → OnCallMove w (.loseReply k) w'
  | failed (k : Nat) (c : RetryCall) : w.call k = some c → c.phase.hasEnded = false →
      OnCallMove w (.fail k) (w.put k { c with phase := .threw .other })

theorem onCallStep_move {w' : OnCallWorld} {e : OnCallEvent} (hs : onCallStep w e = some w') :
    OnCallMove w e w' := by
  unfold onCallStep at hs
  cases e with
  | retryGoOffCall k staffName maxAttempts =>
    dsimp only at hs
    split at hs
    · cases hs
    · rename_i hk
      split at hs
      · rename_i hstaff
        cases hs
        exact .started k staffName maxAttempts hk hstaff
      · cases hs
  | attemptGoOffCall k =>
    dsimp only at hs
    split at hs
    · rename_i c hc
      split at hs
      · rename_i hp
        cases hs
        exact .begun k c hc hp
      · cases hs
    · cases hs
  | count k seen =>
    dsimp only at hs
    split at hs
    · rename_i c hc
      split at hs
      · rename_i hcounting
        cases hs
        exact .counted k seen c hc hcounting.1 hcounting.2
      · cases hs
    · cases hs
  | query k =>
    dsimp only at hs
    split at hs
    · rename_i c hc
      exact .queried k c hc hs
    · cases hs
  | serializationFailure k =>
    dsimp only at hs
    split at hs
    · rename_i c hc
      split at hs
      · rename_i hin
        cases hs
        exact .conflicted k c hc hin
      · cases hs
    · cases hs
  | loseReply k =>
    dsimp only at hs
    split at hs
    · rename_i c hc
      exact .lost k c hc hs
    · cases hs
  | fail k =>
    dsimp only at hs
    split at hs
    · rename_i c hc
      split at hs
      · cases hs
      · rename_i hopen
        cases hs
        exact .failed k c hc (Bool.eq_false_iff.mpr hopen)
    · cases hs

private theorem countOnCall_setOffCall (staff : List StaffRow) (team : String) (k : Nat) :
    countOnCall (setOffCall staff k) team = countOthersOnCall staff team k := by
  unfold countOnCall setOffCall countOthersOnCall updateWhere
  rw [List.countP_map]
  refine List.countP_congr fun row _ => ?_
  by_cases hrow : row.id = k
  · simp [hrow]
  · simp [hrow]

private theorem stateAfter_append (initial : List StaffRow) (commits : List GoOffCall)
    (t : GoOffCall) :
    stateAfter initial (commits ++ [t]) = setOffCall (stateAfter initial commits) t.staffId := by
  unfold stateAfter
  rw [List.foldl_append]
  rfl

def StaffRow.after (commits : List GoOffCall) (row : StaffRow) : StaffRow :=
  if row.id ∈ commits.map GoOffCall.staffId then { row with isOnCall := false } else row

private theorem stateAfter_eq (initial : List StaffRow) (commits : List GoOffCall) :
    stateAfter initial commits = initial.map (StaffRow.after commits) := by
  induction commits using List.reverseRecOn with
  | nil =>
    unfold StaffRow.after
    simp [stateAfter]
  | append_singleton commits t ih =>
    rw [stateAfter_append,ih]
    unfold setOffCall updateWhere
    rw [List.map_map]
    refine List.map_congr_left fun row _ => ?_
    have hmem : row.id ∈ (commits ++ [t]).map GoOffCall.staffId ↔
        row.id ∈ commits.map GoOffCall.staffId ∨ row.id = t.staffId := by
      simp
    unfold StaffRow.after
    rw [Function.comp_apply]
    by_cases hold : row.id ∈ commits.map GoOffCall.staffId
    · rw [if_pos hold,if_pos (hmem.mpr (.inl hold))]
      split <;> rfl
    · rw [if_neg hold]
      by_cases hnew : row.id = t.staffId
      · rw [if_pos (beq_iff_eq.mpr hnew),if_pos (hmem.mpr (.inr hnew))]
      · rw [if_neg (mt beq_iff_eq.mp hnew),if_neg (mt hmem.mp (not_or.mpr ⟨hold,hnew⟩))]

/-- Alone, a transaction that has counted somebody leaves somebody on call. -/
theorem GoOffCall.alone_covered {team : String} {staff staff' : List StaffRow}
    (ht : 1 ≤ t.othersOnCall) (h : GoOffCall.alone team staff t = some staff') :
    1 ≤ countOnCall staff' team := by
  unfold GoOffCall.alone at h
  split at h
  · rename_i hcount
    cases h
    rw [countOnCall_setOffCall,hcount]
    exact ht
  · cases h

def RetryPhase.hasCommitted : RetryPhase → Bool
  | .returned outcome => outcome.finalOutcome == .committed
  | .replyLost => true
  | _ => false

/-- Everybody of the team but `k` has gone off call. -/
def OnCallWorld.OthersOff (w : OnCallWorld) (k : Nat) : Prop :=
  ∀ row ∈ w.initial, row.team = w.team → row.id ≠ k → row.id ∈ w.commits.map GoOffCall.staffId

def OnCallWorld.Valid (w : OnCallWorld) (k : Nat) (c : RetryCall) : Prop :=
  match c.phase with
  | .updating t => t.staffId = k ∧ 1 ≤ t.othersOnCall
  | .committing t => t.staffId = k ∧ 1 ≤ t.othersOnCall
  | .rollingBack => w.OthersOff k
  | .returned outcome =>
    (outcome.finalOutcome = .committed → k ∈ w.commits.map GoOffCall.staffId) ∧
      (outcome.finalOutcome = .rejected → w.OthersOff k)
  | _ => True

private theorem hasEnded_of_inTransaction {phase : RetryPhase} (h : phase.inTransaction = true) :
    phase.hasEnded = false := by
  cases phase with
  | connecting => cases h
  | returned outcome => cases h
  | threw error => cases h
  | replyLost => cases h
  | _ => rfl

private theorem hasCommitted_of_open {phase : RetryPhase} (h : phase.hasEnded = false) :
    phase.hasCommitted = false := by
  cases phase with
  | returned outcome => cases h
  | replyLost => cases h
  | _ => rfl

theorem OnCallWorld.mem_commit (w : OnCallWorld) (t : GoOffCall) {k : Nat}
    (hk : k ∈ w.commits.map GoOffCall.staffId) :
    k ∈ (w.commit t).commits.map GoOffCall.staffId := by
  show k ∈ (w.commits ++ [t]).map GoOffCall.staffId
  rw [List.map_append]
  exact List.mem_append_left _ hk

theorem OnCallWorld.OthersOff.commit (h : w.OthersOff k) (t : GoOffCall) :
    (w.commit t).OthersOff k := by
  intro row hrow hteam hne
  exact w.mem_commit t (h row hrow hteam hne)

theorem OnCallWorld.Valid.commit (h : w.Valid k c) (t : GoOffCall) : (w.commit t).Valid k c := by
  unfold OnCallWorld.Valid at h ⊢
  split at h
  · exact h
  · exact h
  · exact OnCallWorld.OthersOff.commit h t
  · exact ⟨fun hcommitted => w.mem_commit t (h.1 hcommitted),
      fun hrejected => (h.2 hrejected).commit t⟩
  · trivial

/-- Whoever counts nobody is the only one of the team who may still be on call. -/
theorem othersOff_of_count {seen : Nat}
    (hinitial : ∀ row ∈ w.initial, row.team = w.team → row.isOnCall = true)
    (hcount : countOthersOnCall (w.snapshot seen) w.team k < 1) : w.OthersOff k := by
  intro row hrow hteam hne
  by_contra hon
  have hkeep : row.after (w.commits.take seen) = row := by
    refine if_neg fun hmem => hon ?_
    obtain ⟨t,ht,heq⟩ := List.mem_map.mp hmem
    exact List.mem_map.mpr ⟨t,List.mem_of_mem_take ht,heq⟩
  have hmem : row ∈ w.snapshot seen := by
    rw [OnCallWorld.snapshot,stateAfter_eq,List.mem_map]
    exact ⟨row,hrow,hkeep⟩
  have hpos : 0 < countOthersOnCall (w.snapshot seen) w.team k := by
    refine List.countP_pos_iff.mpr ⟨row,hmem,?_⟩
    simp [hteam,hinitial row hrow hteam,hne]
  omega

structure OnCallWorld.Sound (first w : OnCallWorld) : Prop where
  initial : w.initial = first.initial
  team : w.team = first.team
  covered : ∀ seen ≤ w.commits.length, 1 ≤ countOnCall (w.snapshot seen) w.team
  counted : ∀ t ∈ w.commits, 1 ≤ t.othersOnCall
  committed : ∀ t ∈ w.commits, ∃ c, w.call t.staffId = some c ∧ c.phase.hasCommitted = true
  valid : ∀ k c, w.call k = some c → w.Valid k c

namespace OnCallWorld.Sound

theorem start (h : first.Staffed) : first.Sound first := by
  refine ⟨rfl,rfl,?_,?_,?_,?_⟩
  · intro seen hseen
    obtain ⟨row,hrow,hteam⟩ := h.team
    refine List.countP_pos_iff.mpr ⟨row,?_,?_⟩
    · rw [snapshot,h.commits,List.take_nil]
      exact hrow
    · simp [hteam,h.onCall row hrow hteam]
  · rw [h.commits]
    nofun
  · rw [h.commits]
    nofun
  · intro k c hc
    rw [h.calls] at hc
    cases hc

theorem keep (h : first.Sound w) (hopen : ∀ d, w.call k = some d → d.phase.hasCommitted = false)
    (hvalid : w.Valid k c) : first.Sound (w.put k c) := by
  refine ⟨h.initial,h.team,h.covered,h.counted,?_,?_⟩
  · intro t ht
    obtain ⟨d,hd,hcommitted⟩ := h.committed t ht
    refine ⟨d,(Function.update_of_ne ?_ _ _).trans hd,hcommitted⟩
    rintro rfl
    rw [hopen d hd] at hcommitted
    cases hcommitted
  · intro m d hd
    rcases update_eq_some hd with ⟨rfl,rfl⟩ | ⟨_,hold⟩
    · exact hvalid
    · exact h.valid m d hold

theorem commit (h : first.Sound w) (ht : t.staffId = k) (hcount : 1 ≤ t.othersOnCall)
    (hadmits : w.Admits t) (hc : c.phase.hasCommitted = true) (hvalid : (w.commit t).Valid k c) :
    first.Sound ((w.commit t).put k c) := by
  have hcounted : ∀ u ∈ w.commits ++ [t], 1 ≤ u.othersOnCall := by
    intro u hu
    rcases List.mem_append.mp hu with hold | hnew
    · exact h.counted u hold
    · rw [List.mem_singleton.mp hnew]
      exact hcount
  refine ⟨h.initial,h.team,?_,hcounted,?_,?_⟩
  · intro seen hseen
    show 1 ≤ countOnCall (stateAfter w.initial ((w.commits ++ [t]).take seen)) w.team
    by_cases hold : seen ≤ w.commits.length
    · rw [List.take_append_of_le_length hold]
      exact h.covered seen hold
    · have hall : (w.commits ++ [t]).take seen = w.commits ++ [t] := by
        refine List.take_of_length_le ?_
        rw [List.length_append,List.length_singleton]
        omega
      rw [hall]
      have hfirst : 1 ≤ countOnCall w.initial w.team := h.covered 0 (Nat.zero_le _)
      exact hadmits.invariant (fun staff => 1 ≤ countOnCall staff w.team) hcounted hfirst
        fun _ _ _ _ hu hs => GoOffCall.alone_covered hu hs
  · intro u hu
    by_cases huk : u.staffId = k
    · exact ⟨c,by rw [huk]; exact Function.update_self _ _ _,hc⟩
    · rcases List.mem_append.mp hu with hold | hnew
      · obtain ⟨d,hd,hcommitted⟩ := h.committed u hold
        exact ⟨d,(Function.update_of_ne huk _ _).trans hd,hcommitted⟩
      · rw [List.mem_singleton.mp hnew] at huk
        exact absurd ht huk
  · intro m d hd
    rcases update_eq_some hd with ⟨rfl,rfl⟩ | ⟨_,hold⟩
    · exact hvalid
    · exact (h.valid m d hold).commit t

private theorem nextAttempt (h : first.Sound w)
    (hopen : ∀ d, w.call k = some d → d.phase.hasCommitted = false) :
    first.Sound (w.nextAttempt k c) := by
  unfold OnCallWorld.nextAttempt
  split <;> exact h.keep hopen trivial

private theorem count (h : first.Sound w) (hfirst : first.Staffed) (hc : w.call k = some c)
    (hp : c.phase = .counting) (seen : Nat) : first.Sound (w.count k seen c) := by
  have hopen : c.phase.hasEnded = false := by
    rw [hp]
    rfl
  have hcommitted := forall_of_eq_some (P := fun d : RetryCall => d.phase.hasCommitted = false) hc
    (hasCommitted_of_open hopen)
  unfold OnCallWorld.count
  dsimp only
  split
  · rename_i hcount
    refine h.keep hcommitted (othersOff_of_count ?_ hcount)
    rw [h.initial,h.team]
    exact hfirst.onCall
  · rename_i hcount
    exact h.keep hcommitted ⟨rfl,Nat.le_of_not_lt hcount⟩

private theorem query {w' : OnCallWorld} (h : first.Sound w) (hc : w.call k = some c)
    (hs : w.query k c = some w') : first.Sound w' := by
  have hvalid := h.valid k c hc
  unfold OnCallWorld.query at hs
  unfold OnCallWorld.Valid at hvalid
  split at hs
  · rename_i t hp
    cases hs
    rw [hp] at hvalid
    refine h.keep (forall_of_eq_some hc ?_) hvalid
    rw [hp]
    rfl
  · rename_i t hp
    rw [hp] at hvalid
    obtain ⟨hstaff,hcount⟩ := hvalid
    split at hs
    · rename_i hadmits
      cases hs
      refine h.commit hstaff hcount hadmits rfl ⟨fun _ => ?_,nofun⟩
      exact List.mem_map.mpr ⟨t,List.mem_append_right _ (List.mem_singleton_self _),hstaff⟩
    · cases hs
  · rename_i hp
    cases hs
    rw [hp] at hvalid
    refine h.keep (forall_of_eq_some hc ?_) ⟨nofun,fun _ => hvalid⟩
    rw [hp]
    rfl
  · cases hs

private theorem loseReply {w' : OnCallWorld} (h : first.Sound w) (hc : w.call k = some c)
    (hs : w.loseReply k c = some w') : first.Sound w' := by
  have hvalid := h.valid k c hc
  unfold OnCallWorld.loseReply at hs
  unfold OnCallWorld.Valid at hvalid
  split at hs
  · rename_i t hp
    rw [hp] at hvalid
    split at hs
    · rename_i hadmits
      cases hs
      exact h.commit hvalid.1 hvalid.2 hadmits rfl trivial
    · cases hs
  · cases hs

theorem step {w' : OnCallWorld} {e : OnCallEvent} (h : first.Sound w) (hfirst : first.Staffed)
    (hs : onCallStep w e = some w') : first.Sound w' := by
  cases onCallStep_move hs with
  | started k staffName maxAttempts hk hstaff =>
    refine h.nextAttempt fun d hd => ?_
    rw [hk] at hd
    cases hd
  | begun k c hc hp =>
    have hopen : c.phase.hasEnded = false := by
      rw [hp]
      rfl
    exact h.keep (forall_of_eq_some hc (hasCommitted_of_open hopen)) trivial
  | counted k seen c hc hp hseen => exact h.count hfirst hc hp seen
  | queried k c hc hquery => exact h.query hc hquery
  | conflicted k c hc hin =>
    have hopen := hasEnded_of_inTransaction hin
    exact h.nextAttempt (forall_of_eq_some hc (hasCommitted_of_open hopen))
  | lost k c hc hlose => exact h.loseReply hc hlose
  | failed k c hc hopen =>
    exact h.keep (forall_of_eq_some hc (hasCommitted_of_open hopen)) trivial

end OnCallWorld.Sound

def OnCallEvent.staffId : OnCallEvent → Nat
  | .retryGoOffCall k _ _ => k
  | .attemptGoOffCall k => k
  | .count k _ => k
  | .query k => k
  | .serializationFailure k => k
  | .loseReply k => k
  | .fail k => k

/-- The attempts that the call of `k` has begun. -/
def attemptsBegun (k : Nat) (es : List OnCallEvent) : Nat := es.count (.attemptGoOffCall k)

def OnCallEvent.begun : OnCallEvent → Nat
  | .attemptGoOffCall _ => 1
  | _ => 0

private theorem attemptsBegun_snoc (es : List OnCallEvent) (e : OnCallEvent) :
    attemptsBegun e.staffId (es ++ [e]) = attemptsBegun e.staffId es + e.begun := by
  unfold attemptsBegun
  rw [List.count_append,List.count_singleton]
  cases e with
  | attemptGoOffCall k => exact congrArg _ (if_pos (beq_self_eq_true _))
  | _ => rfl

private theorem attemptsBegun_snoc_of_ne (es : List OnCallEvent) {e : OnCallEvent}
    (hk : k ≠ e.staffId) : attemptsBegun k (es ++ [e]) = attemptsBegun k es := by
  have he : ¬ (e == OnCallEvent.attemptGoOffCall k) = true := by
    intro he
    rw [beq_iff_eq.mp he] at hk
    exact hk rfl
  unfold attemptsBegun
  rw [List.count_append,List.count_singleton,if_neg he]
  rfl

/-- The loop of a call that has begun `n` attempts. -/
def RetryCall.Counts (c : RetryCall) (n : Nat) : Prop :=
  match c.phase with
  | .connecting => c.attempt = n + 1 ∧ c.attempt ≤ c.maxAttempts ∧ c.conflictsEncountered = n
  | .returned outcome =>
    outcome.attempts = n ∧ n ≤ c.maxAttempts ∧ outcome.conflictsEncountered + 1 = n
  | .threw _ => n = 0 ∨ n ≤ c.maxAttempts
  | .replyLost => n ≤ c.maxAttempts
  | _ => c.attempt = n ∧ c.attempt ≤ c.maxAttempts ∧ c.conflictsEncountered + 1 = n

private theorem counts_of_inTransaction {n : Nat} (h : c.phase.inTransaction = true) :
    c.Counts n ↔ c.attempt = n ∧ c.attempt ≤ c.maxAttempts ∧ c.conflictsEncountered + 1 = n := by
  unfold RetryCall.Counts
  cases hp : c.phase with
  | connecting =>
    rw [hp] at h
    cases h
  | returned outcome =>
    rw [hp] at h
    cases h
  | threw error =>
    rw [hp] at h
    cases h
  | replyLost =>
    rw [hp] at h
    cases h
  | _ => exact Iff.rfl

private theorem RetryCall.Counts.le {n : Nat} (h : c.Counts n) : n = 0 ∨ n ≤ c.maxAttempts := by
  unfold RetryCall.Counts at h
  split at h
  · omega
  · exact .inr h.2.1
  · exact h
  · exact .inr h
  · omega

theorem start_call (w : OnCallWorld) (k : Nat) (staffName : String) (maxAttempts : Int) :
    ∃ c', (w.nextAttempt k { staffName, maxAttempts }).call =
        Function.update w.call k (some c') ∧
      c'.maxAttempts = maxAttempts ∧ c'.Counts 0 := by
  unfold OnCallWorld.nextAttempt
  split
  · rename_i hle
    exact ⟨_,rfl,rfl,rfl,hle,rfl⟩
  · exact ⟨_,rfl,rfl,.inl rfl⟩

/-- What a step that begins so many attempts makes of a call. -/
def RetryCall.Leads (c c' : RetryCall) (begun : Nat) : Prop :=
  c'.maxAttempts = c.maxAttempts ∧ ∀ n, c.Counts n → c'.Counts (n + begun)

private theorem count_call (w : OnCallWorld) (seen : Nat) (hp : c.phase = .counting) :
    ∃ c', (w.count k seen c).call = Function.update w.call k (some c') ∧ c.Leads c' 0 := by
  have hin : c.phase.inTransaction = true := by
    rw [hp]
    rfl
  unfold OnCallWorld.count
  dsimp only
  split <;> exact ⟨_,rfl,rfl,fun n hn => (counts_of_inTransaction hin).mp hn⟩

private theorem terminal_call (w : OnCallWorld) (k : Nat) (finalOutcome : AttemptOutcome)
    (hin : c.phase.inTransaction = true) :
    ∃ c', (w.terminal k c finalOutcome).call = Function.update w.call k (some c') ∧
      c.Leads c' 0 := by
  refine ⟨_,rfl,rfl,fun n hn => ?_⟩
  obtain ⟨hattempt,hle,hconflicts⟩ := (counts_of_inTransaction hin).mp hn
  rw [hattempt] at hle
  exact ⟨hattempt,hle,hconflicts⟩

private theorem query_call {w' : OnCallWorld} (hs : w.query k c = some w') :
    ∃ c', w'.call = Function.update w.call k (some c') ∧ c.Leads c' 0 := by
  unfold OnCallWorld.query at hs
  split at hs
  · rename_i t hp
    cases hs
    have hin : c.phase.inTransaction = true := by
      rw [hp]
      rfl
    exact ⟨_,rfl,rfl,fun n hn => (counts_of_inTransaction hin).mp hn⟩
  · rename_i t hp
    split at hs
    · cases hs
      exact terminal_call (w.commit t) k .committed (by rw [hp]; rfl)
    · cases hs
  · rename_i hp
    cases hs
    exact terminal_call w k .rejected (by rw [hp]; rfl)
  · cases hs

private theorem loseReply_call {w' : OnCallWorld} (hs : w.loseReply k c = some w') :
    ∃ c', w'.call = Function.update w.call k (some c') ∧ c.Leads c' 0 := by
  unfold OnCallWorld.loseReply at hs
  split at hs
  · rename_i t hp
    have hin : c.phase.inTransaction = true := by
      rw [hp]
      rfl
    split at hs
    · cases hs
      refine ⟨_,rfl,rfl,fun n hn => ?_⟩
      obtain ⟨hattempt,hle,-⟩ := (counts_of_inTransaction hin).mp hn
      rw [hattempt] at hle
      exact hle
    · cases hs
  · cases hs

private theorem conflict_call (w : OnCallWorld) (k : Nat) (hin : c.phase.inTransaction = true) :
    ∃ c', (w.conflict k c).call = Function.update w.call k (some c') ∧ c.Leads c' 0 := by
  unfold OnCallWorld.conflict OnCallWorld.nextAttempt
  dsimp only
  split
  · rename_i hle
    refine ⟨_,rfl,rfl,fun n hn => ?_⟩
    obtain ⟨hattempt,-,hconflicts⟩ := (counts_of_inTransaction hin).mp hn
    exact ⟨congrArg (· + 1) hattempt,hle,hconflicts⟩
  · refine ⟨_,rfl,rfl,fun n hn => ?_⟩
    obtain ⟨hattempt,hle,-⟩ := (counts_of_inTransaction hin).mp hn
    rw [hattempt] at hle
    exact .inr hle

private theorem onCallStep_call {w' : OnCallWorld} {e : OnCallEvent}
    (hs : onCallStep w e = some w') :
    ∃ c', w'.call = Function.update w.call e.staffId (some c') ∧
      ((∃ staffName maxAttempts, e = .retryGoOffCall e.staffId staffName maxAttempts ∧
          w.call e.staffId = none ∧ c'.maxAttempts = maxAttempts.getD 5 ∧ c'.Counts 0) ∨
        (∀ staffName maxAttempts, e ≠ .retryGoOffCall e.staffId staffName maxAttempts) ∧
          ∃ c, w.call e.staffId = some c ∧ c.Leads c' e.begun) := by
  cases onCallStep_move hs with
  | started k staffName maxAttempts hk hstaff =>
    obtain ⟨c',hcall,hmax,hcounts⟩ := start_call w k staffName (maxAttempts.getD 5)
    exact ⟨c',hcall,.inl ⟨staffName,maxAttempts,rfl,hk,hmax,hcounts⟩⟩
  | begun k c hc hp =>
    refine ⟨_,rfl,.inr ⟨nofun,c,hc,rfl,fun n hn => ?_⟩⟩
    unfold RetryCall.Counts at hn
    rw [hp] at hn
    exact ⟨hn.1,hn.2.1,congrArg (· + 1) hn.2.2⟩
  | counted k seen c hc hp hseen =>
    obtain ⟨c',hcall,hleads⟩ := count_call w seen hp
    exact ⟨c',hcall,.inr ⟨nofun,c,hc,hleads⟩⟩
  | queried k c hc hquery =>
    obtain ⟨c',hcall,hleads⟩ := query_call hquery
    exact ⟨c',hcall,.inr ⟨nofun,c,hc,hleads⟩⟩
  | conflicted k c hc hin =>
    obtain ⟨c',hcall,hleads⟩ := conflict_call w k hin
    exact ⟨c',hcall,.inr ⟨nofun,c,hc,hleads⟩⟩
  | lost k c hc hlose =>
    obtain ⟨c',hcall,hleads⟩ := loseReply_call hlose
    exact ⟨c',hcall,.inr ⟨nofun,c,hc,hleads⟩⟩
  | failed k c hc hopen => exact ⟨_,rfl,.inr ⟨nofun,c,hc,rfl,fun n hn => hn.le⟩⟩

/-- A run counts the attempts of each call; a call keeps the `maxAttempts` it came with. -/
structure OnCallWorld.Counted (w : OnCallWorld) (es : List OnCallEvent) : Prop where
  idle : ∀ k, w.call k = none → attemptsBegun k es = 0
  calls : ∀ k c, w.call k = some c → c.Counts (attemptsBegun k es)
  limit : ∀ k staffName maxAttempts, .retryGoOffCall k staffName maxAttempts ∈ es →
    ∃ c, w.call k = some c ∧ c.maxAttempts = maxAttempts.getD 5

namespace OnCallWorld.Counted

theorem start (h : first.Staffed) : first.Counted [] := by
  refine ⟨fun _ _ => rfl,fun k c hc => ?_,nofun⟩
  rw [h.calls] at hc
  cases hc

theorem step {w' : OnCallWorld} {es : List OnCallEvent} {e : OnCallEvent} (h : w.Counted es)
    (hs : onCallStep w e = some w') : w'.Counted (es ++ [e]) := by
  obtain ⟨c',hcall,hmove⟩ := onCallStep_call hs
  refine ⟨fun k hk => ?_,fun k c hk => ?_,fun k staffName maxAttempts hmem => ?_⟩
  · rw [hcall] at hk
    obtain ⟨hne,hk⟩ := update_eq_none hk
    rw [attemptsBegun_snoc_of_ne es hne]
    exact h.idle k hk
  · rw [hcall] at hk
    rcases update_eq_some hk with ⟨rfl,rfl⟩ | ⟨hne,hk⟩
    · rw [attemptsBegun_snoc]
      rcases hmove with ⟨staffName,maxAttempts,he,hnone,-,hcounts⟩ | ⟨-,d,hd,-,hcounts⟩
      · rw [h.idle _ hnone,he]
        exact hcounts
      · exact hcounts _ (h.calls _ d hd)
    · rw [attemptsBegun_snoc_of_ne es hne]
      exact h.calls k c hk
  · rw [hcall]
    rcases List.mem_append.mp hmem with hold | hnew
    · obtain ⟨c,hc,hmax⟩ := h.limit k staffName maxAttempts hold
      by_cases hk : k = e.staffId
      · subst hk
        rw [Function.update_self]
        rcases hmove with ⟨_,_,-,hnone,-,-⟩ | ⟨-,d,hd,hkeep,-⟩
        · rw [hc] at hnone
          cases hnone
        · obtain rfl : c = d := Option.some.inj (hc.symm.trans hd)
          exact ⟨c',rfl,hkeep.trans hmax⟩
      · rw [Function.update_of_ne hk]
        exact ⟨c,hc,hmax⟩
    · obtain rfl := List.mem_singleton.mp hnew
      rcases hmove with ⟨_,_,he,-,hmax,-⟩ | ⟨hne,-⟩
      · cases he
        exact ⟨c',Function.update_self _ _ _,hmax⟩
      · exact absurd rfl (hne staffName maxAttempts)

end OnCallWorld.Counted

def OnCallWorld.finalOutcome (w : OnCallWorld) (k : Nat) : Option AttemptOutcome :=
  match w.call k with
  | some { phase := .returned outcome, .. } => some outcome.finalOutcome
  | _ => none

/-- After the events `es`. The last field is about the end of the run, when all of the team have
returned. -/
structure OnCallWorld.Covered (first : OnCallWorld) (es : List OnCallEvent) (w : OnCallWorld) :
    Prop where
  same : w.initial = first.initial ∧ w.team = first.team
  onCall : ∀ seen ≤ w.commits.length, 1 ≤ countOnCall (w.snapshot seen) w.team
  attempts : ∀ k staffName maxAttempts, .retryGoOffCall k staffName maxAttempts ∈ es →
    attemptsBegun k es = 0 ∨ (attemptsBegun k es : Int) ≤ maxAttempts.getD 5
  reported : ∀ k c outcome, w.call k = some c → c.phase = .returned outcome →
    outcome.attempts = attemptsBegun k es ∧ outcome.attempts ≤ c.maxAttempts ∧
      outcome.conflictsEncountered + 1 = attemptsBegun k es
  oneRejected : (∀ row ∈ w.initial, row.team = w.team → (w.finalOutcome row.id).isSome) →
    ∃ last ∈ w.initial, last.team = w.team ∧ w.finalOutcome last.id = some .rejected ∧
      (∀ row ∈ w.initial, row.team = w.team → row.id ≠ last.id →
        w.finalOutcome row.id = some .committed) ∧
      ∀ row ∈ w.staff, row.team = w.team → (row.isOnCall = true ↔ row.id = last.id)

private theorem finalOutcome_some {finalOutcome : AttemptOutcome}
    (h : w.finalOutcome k = some finalOutcome) : ∃ c outcome, w.call k = some c ∧
      c.phase = .returned outcome ∧ outcome.finalOutcome = finalOutcome := by
  unfold OnCallWorld.finalOutcome at h
  split at h
  · rename_i staffName maxAttempts attempt conflicts outcome hc
    exact ⟨_,outcome,hc,rfl,Option.some.inj h⟩
  · cases h

namespace OnCallWorld.Sound

private theorem othersOff (h : first.Sound w) (hk : w.finalOutcome k = some .rejected) :
    w.OthersOff k := by
  obtain ⟨c,outcome,hc,hp,hrejected⟩ := finalOutcome_some hk
  have hvalid := h.valid k c hc
  unfold OnCallWorld.Valid at hvalid
  rw [hp] at hvalid
  exact hvalid.2 hrejected

theorem committed_of_mem (h : first.Sound w) (hk : k ∈ w.commits.map GoOffCall.staffId)
    (hreturned : (w.finalOutcome k).isSome) : w.finalOutcome k = some .committed := by
  obtain ⟨t,ht,rfl⟩ := List.mem_map.mp hk
  obtain ⟨c,hc,hcommitted⟩ := h.committed t ht
  obtain ⟨finalOutcome,hfinal⟩ := Option.isSome_iff_exists.mp hreturned
  obtain ⟨d,outcome,hd,hp,heq⟩ := finalOutcome_some hfinal
  obtain rfl : c = d := Option.some.inj (hc.symm.trans hd)
  rw [hp] at hcommitted
  rw [hfinal,← heq]
  exact congrArg some (beq_iff_eq.mp hcommitted)

private theorem exists_left (h : first.Sound w) : ∃ row ∈ w.initial, row.team = w.team ∧
    row.id ∉ w.commits.map GoOffCall.staffId := by
  have hcovered := h.covered w.commits.length (Nat.le_refl _)
  rw [OnCallWorld.snapshot,List.take_length] at hcovered
  obtain ⟨after,hafter,hon⟩ := List.countP_pos_iff.mp hcovered
  rw [stateAfter_eq,List.mem_map] at hafter
  obtain ⟨row,hrow,rfl⟩ := hafter
  rw [Bool.and_eq_true,beq_iff_eq] at hon
  have hleft : row.id ∉ w.commits.map GoOffCall.staffId := by
    intro hmem
    rw [StaffRow.after,if_pos hmem] at hon
    cases hon.2
  rw [StaffRow.after,if_neg hleft] at hon
  exact ⟨row,hrow,hon.1,hleft⟩

theorem mem_of_committed (h : first.Sound w) (hk : w.finalOutcome k = some .committed) :
    k ∈ w.commits.map GoOffCall.staffId := by
  obtain ⟨c,outcome,hc,hp,hcommitted⟩ := finalOutcome_some hk
  have hvalid := h.valid k c hc
  unfold OnCallWorld.Valid at hvalid
  rw [hp] at hvalid
  exact hvalid.1 hcommitted

private theorem oneRejected (h : first.Sound w) (hfirst : first.Staffed)
    (hall : ∀ row ∈ w.initial, row.team = w.team → (w.finalOutcome row.id).isSome) :
    ∃ last ∈ w.initial, last.team = w.team ∧ w.finalOutcome last.id = some .rejected ∧
      (∀ row ∈ w.initial, row.team = w.team → row.id ≠ last.id →
        w.finalOutcome row.id = some .committed) ∧
      ∀ row ∈ w.staff, row.team = w.team → (row.isOnCall = true ↔ row.id = last.id) := by
  obtain ⟨last,hlast,hteam,hleft⟩ := h.exists_left
  have hrejected : w.finalOutcome last.id = some .rejected := by
    obtain ⟨finalOutcome,hfinal⟩ := Option.isSome_iff_exists.mp (hall last hlast hteam)
    cases finalOutcome with
    | committed => exact absurd (h.mem_of_committed hfinal) hleft
    | rejected => exact hfinal
  have hoff := h.othersOff hrejected
  refine ⟨last,hlast,hteam,hrejected,?_,?_⟩
  · intro row hrow hrowTeam hne
    exact h.committed_of_mem (hoff row hrow hrowTeam hne) (hall row hrow hrowTeam)
  · intro after hafter
    rw [OnCallWorld.staff,stateAfter_eq,List.mem_map] at hafter
    obtain ⟨row,hrow,rfl⟩ := hafter
    unfold StaffRow.after
    split
    · rename_i hmem
      intro _
      refine iff_of_false nofun fun heq => hleft ?_
      rw [← heq]
      exact hmem
    · rename_i hmem
      intro hrowTeam
      have hon : row.isOnCall = true := by
        rw [h.initial] at hrow
        rw [h.team] at hrowTeam
        exact hfirst.onCall row hrow hrowTeam
      refine iff_of_true hon ?_
      by_contra hne
      exact hmem (hoff row hrow hrowTeam hne)

end OnCallWorld.Sound

theorem retryGoOffCall_covered {es : List OnCallEvent} (hfirst : first.Staffed)
    (hrun : run onCallStep first es = some w) : first.Covered es w := by
  have hsound : first.Sound w := run_invariant (fun _ _ _ hc hs => hc.step hfirst hs)
    (.start hfirst) hrun
  have hcounted : w.Counted es := run_history (P := fun es w => w.Counted es) (.start hfirst)
    (fun _ _ _ _ hc hs => hc.step hs) hrun
  refine ⟨⟨hsound.initial,hsound.team⟩,hsound.covered,?_,?_,hsound.oneRejected hfirst⟩
  · intro k staffName maxAttempts hmem
    obtain ⟨c,hc,hmax⟩ := hcounted.limit k staffName maxAttempts hmem
    rw [← hmax]
    exact (hcounted.calls k c hc).le
  · intro k c outcome hc hp
    have hcounts := hcounted.calls k c hc
    unfold RetryCall.Counts at hcounts
    rw [hp] at hcounts
    obtain ⟨hattempts,hle,hconflicts⟩ := hcounts
    exact ⟨hattempts,by rw [hattempts]; exact hle,hconflicts⟩

/-- Three count each other, and only one may commit what it has counted. The others fail and try
again: one goes off call, and the last one counts nobody. -/
def nightShift : List OnCallEvent :=
  [.retryGoOffCall 1 "alice" none,.retryGoOffCall 2 "bob" (some 5),.retryGoOffCall 3 "carol" none,
    .attemptGoOffCall 1,.attemptGoOffCall 2,.attemptGoOffCall 3,.count 1 0,.count 2 0,.count 3 0,
    .query 1,.query 2,.query 1,.serializationFailure 2,.query 3,.attemptGoOffCall 2,.count 2 1,
    .query 2,.query 2,.serializationFailure 3,.attemptGoOffCall 3,.count 3 2,.query 3]

def threeOnCall : OnCallWorld where
  team := "billing"
  initial := [⟨1,"billing","alice",true⟩,⟨2,"billing","bob",true⟩,⟨3,"billing","carol",true⟩,
    ⟨4,"search","dan",false⟩]

theorem nightShift_covered :
    ∃ w, run onCallStep threeOnCall nightShift = some w ∧ threeOnCall.Covered nightShift w ∧
      w.finalOutcome 3 = some .rejected ∧ attemptsBegun 3 nightShift = 2 := by
  have hstaffed : threeOnCall.Staffed := by
    refine ⟨⟨_,List.mem_cons_self,rfl⟩,?_,rfl,rfl⟩
    decide
  have hrun : (run onCallStep threeOnCall nightShift).any (fun w =>
      decide (w.finalOutcome 3 = some .rejected)) = true := by
    decide +kernel
  obtain ⟨w,hw,hresult,-⟩ := exists_run_of_any hrun
  exact ⟨w,hw,retryGoOffCall_covered hstaffed hw,of_decide_eq_true hresult,rfl⟩

end SystemsLab.OnCall
