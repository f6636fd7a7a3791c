import SystemsLab.ConditionalWrites.LostUpdate

/-!
# Saves that are conditional on the version

If nobody saves with a plain `UPDATE`, a version stands for one history of edits. A save goes through
only if it was computed from the present body, and a user is refused only after somebody else has
saved: no more often than others have.
-/

namespace SystemsLab.ConditionalWrites

variable {w w' : DocumentWorld} {e : DocumentEvent} {row read own : DocumentRow} {user other : Nat}
  {marker : String} {more : List (Nat × String)} {k : Nat}

/-- Nobody saves without a condition. -/
def Conditional : DocumentEvent → Prop
  | .update _ _ => False
  | _ => True

instance : DecidablePred Conditional
  | .update _ _ => .isFalse id
  | .readDocument _ | .updateIfVersion _ _ | .publish _ | .selectForUpdate _ | .append _ _
  | .commit _ | .disconnect _ => .isTrue trivial

/-- What is known of a user's `read`: it saw the first `k` edits, and others made those after it. -/
structure DocumentRow.SeenAt (row : DocumentRow) (w : DocumentWorld) (user k : Nat)
    (read : DocumentRow) : Prop where
  le : k ≤ w.additions.length
  version : read.version = row.version + k
  body : read.body = applied row.body (w.additions.take k)
  others : ∀ edit ∈ w.additions.drop k, edit.1 ≠ user
  refused : w.refused.count user ≤ (w.additions.take k).countP (·.1 ≠ user)

structure DocumentWorld.Checked (row : DocumentRow) (w : DocumentWorld) : Prop where
  body : w.current.body = applied row.body w.additions
  version : w.current.version = row.version + w.additions.length
  reading : ∀ user read, w.reading user = some read → ∃ k, row.SeenAt w user k read
  refused : ∀ user, w.refused.count user ≤ w.additions.countP (·.1 ≠ user)
  published : w.publishedBy.length = if w.current.status = .published then 1 else 0

/-- What is known of the transaction that has the row. -/
structure DocumentWorld.Holds (w : DocumentWorld) (user : Nat) (own : DocumentRow) : Prop where
  body : own.body = applied w.current.body (w.pending.map fun marker => (user,marker))
  version : own.version = w.current.version + w.pending.length
  status : own.status = w.current.status
  reading : w.reading user = none

structure DocumentWorld.Sound (row : DocumentRow) (w : DocumentWorld) : Prop where
  checked : w.Checked row
  held : ∀ user own, w.row.held = some (user,own) → w.Holds user own

namespace DocumentRow.SeenAt

private theorem append (h : row.SeenAt w user k read) (hmore : ∀ edit ∈ more, edit.1 ≠ user)
    (hadditions : w'.additions = w.additions ++ more) (hrefused : w'.refused = w.refused) :
    row.SeenAt w' user k read := by
  have htake : w'.additions.take k = w.additions.take k := by
    rw [hadditions,List.take_append_of_le_length h.le]
  refine ⟨?_,h.version,?_,?_,?_⟩
  · rw [hadditions,List.length_append]
    exact Nat.le_add_right_of_le h.le
  · rw [htake]
    exact h.body
  · rw [hadditions,List.drop_append_of_le_length h.le]
    intro edit hedit
    exact (List.mem_append.mp hedit).elim (h.others edit) (hmore edit)
  · rw [hrefused,htake]
    exact h.refused

private theorem current (h : row.SeenAt w user k read) (hw : w.Checked row)
    (hversion : w.current.version = read.version) : read.body = w.current.body := by
  have hlength : k = w.additions.length := by
    have hcurrent := hw.version
    have hread := h.version
    omega
  rw [h.body,hlength,List.take_length,hw.body]

/-- An old version means that somebody else has saved since. -/
theorem overtaken (h : row.SeenAt w user k read) (hw : w.Checked row)
    (hversion : w.current.version ≠ read.version) :
    w.refused.count user + 1 ≤ w.additions.countP (·.1 ≠ user) := by
  have hlate : k < w.additions.length := by
    have hcurrent := hw.version
    have hread := h.version
    have hle := h.le
    omega
  have hothers : (w.additions.drop k).countP (·.1 ≠ user) = (w.additions.drop k).length :=
    List.countP_eq_length.mpr fun edit hedit => decide_eq_true (h.others edit hedit)
  have hrefused := h.refused
  rw [← List.take_append_drop k w.additions,List.countP_append,hothers,List.length_drop]
  omega

end DocumentRow.SeenAt

namespace DocumentWorld

theorem Checked.start (hdraft : row.status = .draft) : (start row).Checked row where
  body := rfl
  version := (Int.add_zero _).symm
  reading := nofun
  refused _ := Nat.le_refl _
  published := by
    change 0 = if row.status = .published then 1 else 0
    rw [hdraft]
    rfl

private theorem Checked.seen (h : w.Checked row) (user : Nat) :
    row.SeenAt w user w.additions.length w.current where
  le := Nat.le_refl _
  version := h.version
  body := by
    rw [List.take_length]
    exact h.body
  others edit hedit := by
    rw [List.drop_length] at hedit
    cases hedit
  refused := by
    rw [List.take_length]
    exact h.refused user

private theorem Checked.reading_of_eq (h : w.Checked row) (hadditions : w'.additions = w.additions)
    (hrefused : w'.refused = w.refused)
    (hreading : ∀ user read, w'.reading user = some read → w.reading user = some read) :
    ∀ user read, w'.reading user = some read → ∃ k, row.SeenAt w' user k read := by
  intro user read hread
  obtain ⟨k,hk⟩ := h.reading user read (hreading user read hread)
  exact ⟨k,hk.append (by nofun) (hadditions.trans (List.append_nil _).symm) hrefused⟩

private theorem Checked.forget (h : w.Checked row) (user : Nat) : (w.forget user).Checked row :=
  ⟨h.body,h.version,h.reading_of_eq rfl rfl fun _ _ => forget_reading,h.refused,h.published⟩

private theorem Checked.rolledBack (h : w.Checked row) : w.rolledBack.Checked row :=
  ⟨h.body,h.version,h.reading_of_eq rfl rfl fun _ _ h => h,h.refused,h.published⟩

private theorem Checked.saved (h : w.Checked row) (hread : w.reading user = some read)
    (hversion : w.current.version = read.version) (marker : String) :
    (w.saved user marker { w.current with
      body := read.body ++ addition marker
      version := w.current.version + 1 }).Checked row := by
  obtain ⟨k,hk⟩ := h.reading user read hread
  have hfresh := hk.current h hversion
  refine ⟨?_,?_,fun other read' hread' => ?_,fun other => ?_,h.published⟩
  · change read.body ++ addition marker = applied row.body (w.additions ++ [(user,marker)])
    rw [applied_concat,hfresh,h.body]
  · change w.current.version + 1 = row.version + (w.additions ++ [(user,marker)]).length
    rw [List.length_append,h.version,List.length_singleton]
    omega
  · have hother : user ≠ other := by
      rintro rfl
      change Function.update w.reading user none user = some read' at hread'
      rw [Function.update_self] at hread'
      cases hread'
    obtain ⟨j,hj⟩ := h.reading other read' (forget_reading hread')
    refine ⟨j,hj.append (fun edit hedit => ?_) rfl rfl⟩
    rw [List.mem_singleton.mp hedit]
    exact hother
  · change w.refused.count other ≤ (w.additions ++ [(user,marker)]).countP (·.1 ≠ other)
    rw [List.countP_append]
    exact Nat.le_add_right_of_le (h.refused other)

private theorem Checked.refuse (h : w.Checked row) (hread : w.reading user = some read)
    (hversion : w.current.version ≠ read.version) :
    ({ w.forget user with refused := w.refused ++ [user] } : DocumentWorld).Checked row := by
  have hcount : ∀ other, other ≠ user → (w.refused ++ [user]).count other = w.refused.count other := by
    intro other hother
    rw [List.count_append,List.count_singleton,if_neg (by simpa using hother.symm),Nat.add_zero]
  obtain ⟨k,hk⟩ := h.reading user read hread
  refine ⟨h.body,h.version,fun other read' hread' => ?_,fun other => ?_,h.published⟩
  · have hother : other ≠ user := by
      rintro rfl
      change Function.update w.reading other none other = some read' at hread'
      rw [Function.update_self] at hread'
      cases hread'
    obtain ⟨j,hj⟩ := h.reading other read' (forget_reading hread')
    exact ⟨j,hj.le,hj.version,hj.body,hj.others,
      Nat.le_trans (Nat.le_of_eq (hcount other hother)) hj.refused⟩
  · change (w.refused ++ [user]).count other ≤ w.additions.countP (·.1 ≠ other)
    by_cases hother : other = user
    · subst hother
      rw [List.count_append,List.count_singleton_self]
      exact hk.overtaken h hversion
    · rw [hcount other hother]
      exact h.refused other

theorem Checked.commit (h : w.Checked row) (hheld : w.Holds user own) :
    ({ w with
      row := { committed := own }
      additions := w.additions ++ w.pending.map fun marker => (user,marker)
      pending := [] } : DocumentWorld).Checked row := by
  refine ⟨?_,?_,fun other read' hread' => ?_,fun other => ?_,?_⟩
  · change own.body = applied row.body (w.additions ++ _)
    rw [applied_append,hheld.body,h.body]
  · change own.version = row.version + (w.additions ++ _).length
    rw [List.length_append,List.length_map,hheld.version,h.version]
    omega
  · have hother : user ≠ other := by
      rintro rfl
      rw [hheld.reading] at hread'
      cases hread'
    obtain ⟨j,hj⟩ := h.reading other read' hread'
    refine ⟨j,hj.append (fun edit hedit => ?_) rfl rfl⟩
    obtain ⟨_,_,rfl⟩ := List.mem_map.mp hedit
    exact hother
  · change w.refused.count other ≤ (w.additions ++ _).countP (·.1 ≠ other)
    rw [List.countP_append]
    exact Nat.le_add_right_of_le (h.refused other)
  · change w.publishedBy.length = if own.status = .published then 1 else 0
    rw [hheld.status]
    exact h.published

end DocumentWorld

namespace DocumentWorld.Sound

private theorem held_forget (h : w.Sound row) (user : Nat) : ∀ holder own,
    (w.forget user).row.held = some (holder,own) → (w.forget user).Holds holder own := by
  intro holder own hheld
  have hholds := h.held holder own hheld
  refine ⟨hholds.body,hholds.version,hholds.status,?_⟩
  change Function.update w.reading user none holder = none
  by_cases hholder : holder = user
  · rw [hholder,Function.update_self]
  · rw [Function.update_of_ne hholder]
    exact hholds.reading

theorem move (h : w.Sound row) (hok : Conditional e) (hmove : DocumentMove w e w') :
    w'.Sound row := by
  have hchecked := h.checked
  cases hmove with
  | read user hfree =>
    refine ⟨⟨hchecked.body,hchecked.version,fun other read' hread' => ?_,hchecked.refused,
      hchecked.published⟩,fun holder own hheld => ?_⟩
    · change Function.update w.reading user (some w.current) other = some read' at hread'
      rcases update_eq_some hread' with ⟨rfl,rfl⟩ | ⟨_,hread'⟩
      · have hseen := hchecked.seen other
        exact ⟨_,hseen.le,hseen.version,hseen.body,hseen.others,hseen.refused⟩
      · obtain ⟨k,hk⟩ := hchecked.reading other read' hread'
        exact ⟨k,hk.le,hk.version,hk.body,hk.others,hk.refused⟩
    · have hholds := h.held holder own hheld
      refine ⟨hholds.body,hholds.version,hholds.status,?_⟩
      have hother : holder ≠ user := by
        rintro rfl
        exact hfree (congrArg (Option.map Prod.fst) hheld)
      change Function.update w.reading user (some w.current) holder = none
      rw [Function.update_of_ne hother]
      exact hholds.reading
  | updated => exact hok.elim
  | matched user marker read row' hheld hread hversion hsave =>
    obtain ⟨_,rfl⟩ := DocumentRow.save_some hsave
    exact ⟨hchecked.saved hread hversion marker,nofun⟩
  | outOfRange user => exact ⟨hchecked.forget user,h.held_forget user⟩
  | refused user marker read hread hversion =>
    refine ⟨hchecked.refuse hread hversion,fun holder own hheld => ?_⟩
    have hholds := h.held_forget user holder own hheld
    exact ⟨hholds.body,hholds.version,hholds.status,hholds.reading⟩
  | published user hheld hstatus =>
    have hpublished := hchecked.published
    refine ⟨⟨hchecked.body,hchecked.version,hchecked.reading_of_eq rfl rfl fun _ _ h => h,
      hchecked.refused,?_⟩,nofun⟩
    change (w.publishedBy ++ [user]).length = 1
    rw [List.length_append,hpublished,hstatus]
    rfl
  | unpublishable => exact h
  | locked user =>
    have hforget := hchecked.forget user
    refine ⟨⟨hforget.body,hforget.version,hforget.reading_of_eq rfl rfl fun _ _ h => h,
      hforget.refused,hforget.published⟩,fun holder own hheld => ?_⟩
    cases hheld
    exact ⟨rfl,(Int.add_zero _).symm,rfl,Function.update_self _ _ _⟩
  | appended user marker own row' hheld hsave =>
    obtain ⟨_,rfl⟩ := DocumentRow.save_some hsave
    have hholds := h.held user own hheld
    refine ⟨⟨hchecked.body,hchecked.version,hchecked.reading_of_eq rfl rfl fun _ _ h => h,
      hchecked.refused,hchecked.published⟩,fun holder own' hheld' => ?_⟩
    cases hheld'
    refine ⟨?_,?_,hholds.status,hholds.reading⟩
    · change own.body ++ addition marker =
        applied w.current.body ((w.pending ++ [marker]).map fun marker => (user,marker))
      rw [List.map_append,hholds.body]
      exact (applied_concat _ _ user marker).symm
    · change own.version + 1 = w.current.version + (w.pending ++ [marker]).length
      rw [List.length_append,hholds.version,List.length_singleton]
      omega
  | failed => exact ⟨hchecked.rolledBack,nofun⟩
  | committed user own hheld => exact ⟨hchecked.commit (h.held user own hheld),nofun⟩
  | disconnected user => exact ⟨hchecked.forget user,h.held_forget user⟩
  | rolledBack user => exact ⟨(hchecked.forget user).rolledBack,nofun⟩

theorem reachable (hdraft : row.status = .draft)
    (h : ReachableBy documentStep (· = start row) (fun _ e => Conditional e) w) : w.Sound row := by
  apply ReachableBy.invariant (s := w) ?_ ?_ h
  · rintro s rfl
    exact ⟨.start hdraft,nofun⟩
  · exact fun _ _ _ hs hok hstep => hs.move hok (documentStep_move hstep)

end DocumentWorld.Sound

/-- However reads, saves, publications and transactions interleave. -/
theorem updateIfVersion_checked (hdraft : row.status = .draft)
    (h : ReachableBy documentStep (· = .start row) (fun _ e => Conditional e) w) : w.Checked row :=
  (DocumentWorld.Sound.reachable hdraft h).checked

/-- User 1 is overtaken by user 0, reads again and saves. -/
def overtakenSave : List DocumentEvent :=
  [.readDocument 0,.readDocument 1,.updateIfVersion 0 "a",.updateIfVersion 1 "b",.readDocument 1,
    .updateIfVersion 1 "b"]

theorem updateIfVersion_checked_two : ∃ w : DocumentWorld, w.refused = [1] ∧
    w.additions = [(0,"a"),(1,"b")] ∧ w.Checked ⟨7,"",1,.draft⟩ := by
  have hend : (run documentStep (.start ⟨7,"",1,.draft⟩) overtakenSave).any
      (fun w => w.refused == [1] && w.additions == [(0,"a"),(1,"b")]) = true := by decide
  obtain ⟨w,hrun,hresult,_⟩ := exists_run_of_any hend
  rw [Bool.and_eq_true,beq_iff_eq,beq_iff_eq] at hresult
  have hconditional : ∀ e ∈ overtakenSave, Conditional e := by decide
  have hreachable : ReachableBy documentStep (· = .start ⟨7,"",1,.draft⟩)
      (fun _ e => Conditional e) w :=
    ReachableBy.run (.start rfl) (along_of_forall hconditional _) hrun
  exact ⟨w,hresult.1,hresult.2,updateIfVersion_checked rfl hreachable⟩

end SystemsLab.ConditionalWrites
