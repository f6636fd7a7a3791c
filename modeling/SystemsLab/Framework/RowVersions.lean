import Mathlib.Algebra.Group.Basic
import Mathlib.Logic.Function.Basic
import Mathlib.Tactic.Abel

/-!
# Rows under row locks

A transaction that writes a row has its lock until the transaction ends, and until then nobody
else sees what it wrote. Whoever writes the row next starts from the version that was committed
last, or from its own.
-/

namespace SystemsLab

/-- A row with its committed version, and the version of the transaction that has its lock. -/
structure VersionedRow (τ β : Type*) where
  committed : β
  held : Option (τ × β) := none
  deriving DecidableEq, Repr

abbrev RowVersions (κ τ β : Type*) := κ → VersionedRow τ β

variable {κ τ β : Type*}

namespace VersionedRow

variable [DecidableEq τ]

/-- What `t` reads once it has the lock. There is nothing to read while it has to wait. -/
def version (row : VersionedRow τ β) (t : τ) : Option β :=
  match row.held with
  | none => some row.committed
  | some (u,v) => if u = t then some v else none

def commit (row : VersionedRow τ β) (t : τ) : VersionedRow τ β :=
  match row.held with
  | none => row
  | some (u,v) => if u = t then { committed := v } else row

def rollback (row : VersionedRow τ β) (t : τ) : VersionedRow τ β :=
  match row.held with
  | none => row
  | some (u,_) => if u = t then { committed := row.committed } else row

end VersionedRow

namespace RowVersions

def holder (rows : RowVersions κ τ β) (k : κ) : Option τ := (rows k).held.map Prod.fst

section Put

variable [DecidableEq κ]

/-- `t` takes the lock on a row, if it does not have it, and leaves the version `v`. -/
def put (rows : RowVersions κ τ β) (t : τ) (k : κ) (v : β) : RowVersions κ τ β :=
  Function.update rows k { rows k with held := some (t,v) }

theorem committed_put (rows : RowVersions κ τ β) (t : τ) (k m : κ) (v : β) :
    (rows.put t k v m).committed = (rows m).committed := by
  unfold put
  by_cases hm : m = k
  · subst hm
    rw [Function.update_self]
  · rw [Function.update_of_ne hm]

theorem put_self (rows : RowVersions κ τ β) (t : τ) (k : κ) (v : β) :
    rows.put t k v k = ⟨(rows k).committed,some (t,v)⟩ :=
  Function.update_self _ _ _

theorem put_of_ne (rows : RowVersions κ τ β) (t : τ) {k m : κ} (v : β) (hm : m ≠ k) :
    rows.put t k v m = rows m :=
  Function.update_of_ne hm _ _

/-- A statement that is a transaction of its own writes the row `k`. -/
def overwrite (rows : RowVersions κ τ β) (k : κ) (v : β) : RowVersions κ τ β :=
  Function.update rows k { committed := v }

theorem overwrite_self (rows : RowVersions κ τ β) (k : κ) (v : β) :
    rows.overwrite k v k = { committed := v } :=
  Function.update_self _ _ _

theorem overwrite_of_ne (rows : RowVersions κ τ β) {k m : κ} (v : β) (hm : m ≠ k) :
    rows.overwrite k v m = rows m :=
  Function.update_of_ne hm _ _

theorem committed_overwrite (rows : RowVersions κ τ β) (k : κ) (v : β) :
    (fun m => (rows.overwrite k v m).committed) =
      Function.update (fun m => (rows m).committed) k v := by
  funext m
  by_cases hm : m = k
  · subst hm
    rw [overwrite_self,Function.update_self]
  · rw [overwrite_of_ne _ _ hm,Function.update_of_ne hm]

theorem holder_put (rows : RowVersions κ τ β) (t : τ) (k m : κ) (v : β) :
    (rows.put t k v).holder m = if m = k then some t else rows.holder m := by
  unfold holder
  by_cases hm : m = k
  · subst hm
    rw [if_pos rfl,put_self]
    rfl
  · rw [if_neg hm,put_of_ne _ _ _ hm]

end Put

variable [DecidableEq τ]

def commit (rows : RowVersions κ τ β) (t : τ) : RowVersions κ τ β := fun k => (rows k).commit t

def rollback (rows : RowVersions κ τ β) (t : τ) : RowVersions κ τ β :=
  fun k => (rows k).rollback t

variable {rows : RowVersions κ τ β} {t u : τ} {k m : κ}

/-- A transaction reads a row when nobody or the transaction itself has the lock. -/
theorem version_isSome : ((rows k).version t).isSome ↔ ∀ u, rows.holder k = some u → u = t := by
  unfold VersionedRow.version holder
  cases (rows k).held with
  | none => simp
  | some h =>
    obtain ⟨u,v⟩ := h
    by_cases hu : u = t <;> simp [hu]

theorem of_version {row : VersionedRow τ β} {v : β} (h : row.version t = some v) :
    row.held = none ∧ v = row.committed ∨ row.held = some (t,v) := by
  unfold VersionedRow.version at h
  split at h
  · rename_i hheld
    exact .inl ⟨hheld,(Option.some.inj h).symm⟩
  · rename_i u x hheld
    split at h
    · rename_i hu
      rw [hheld,hu,Option.some.inj h]
      exact .inr rfl
    · cases h

theorem holder_of_version {v : β} (h : (rows k).version t = some v) :
    rows.holder k = none ∨ rows.holder k = some t := by
  have hsome := version_isSome.mp (Option.isSome_of_mem h)
  cases hholder : rows.holder k with
  | none => exact .inl rfl
  | some u => exact .inr (congrArg some (hsome u hholder))

theorem committed_rollback (rows : RowVersions κ τ β) (t : τ) (k : κ) :
    (rows.rollback t k).committed = (rows k).committed := by
  unfold rollback VersionedRow.rollback
  split
  · rfl
  · split <;> rfl

/-! The end of a transaction -/

theorem commit_of_other (h : ∀ v, (rows k).held ≠ some (t,v)) : rows.commit t k = rows k := by
  unfold commit VersionedRow.commit
  split
  · rfl
  · rename_i u v hheld
    exact if_neg fun hu => h v (by rw [hheld,hu])

theorem commit_of_held {v : β} (h : (rows k).held = some (t,v)) :
    rows.commit t k = { committed := v } := by
  unfold commit VersionedRow.commit
  rw [h]
  exact if_pos rfl

theorem rollback_of_other (h : ∀ v, (rows k).held ≠ some (t,v)) : rows.rollback t k = rows k := by
  unfold rollback VersionedRow.rollback
  split
  · rfl
  · rename_i u v hheld
    exact if_neg fun hu => h v (by rw [hheld,hu])

theorem rollback_of_held {v : β} (h : (rows k).held = some (t,v)) :
    rows.rollback t k = { committed := (rows k).committed } := by
  unfold rollback VersionedRow.rollback
  rw [h]
  exact if_pos rfl

omit [DecidableEq τ] in
theorem held_cases (rows : RowVersions κ τ β) (t : τ) (k : κ) :
    (∀ v, (rows k).held ≠ some (t,v)) ∨ ∃ v, (rows k).held = some (t,v) := by
  by_cases h : ∃ v, (rows k).held = some (t,v)
  · exact .inr h
  · exact .inl fun v hv => h ⟨v,hv⟩

theorem commit_cases (rows : RowVersions κ τ β) (t : τ) (k : κ) :
    rows.commit t k = rows k ∧ (∀ v, (rows k).held ≠ some (t,v)) ∨
      ∃ v, (rows k).held = some (t,v) ∧ rows.commit t k = { committed := v } := by
  rcases rows.held_cases t k with hother | ⟨v,hheld⟩
  · exact .inl ⟨commit_of_other hother,hother⟩
  · exact .inr ⟨v,hheld,commit_of_held hheld⟩

theorem rollback_cases (rows : RowVersions κ τ β) (t : τ) (k : κ) :
    rows.rollback t k = rows k ∧ (∀ v, (rows k).held ≠ some (t,v)) ∨
      ∃ v, (rows k).held = some (t,v) ∧ rows.rollback t k = { committed := (rows k).committed } := by
  rcases rows.held_cases t k with hother | ⟨v,hheld⟩
  · exact .inl ⟨rollback_of_other hother,hother⟩
  · exact .inr ⟨v,hheld,rollback_of_held hheld⟩

/-- `t` has ended: it has given up its lock, and a row that it had not locked is as it was. -/
def Ended (t : τ) (rows rows' : RowVersions κ τ β) : Prop :=
  ∀ k, rows' k = rows k ∧ (∀ v, (rows k).held ≠ some (t,v)) ∨
    ∃ v, (rows k).held = some (t,v) ∧ (rows' k).held = none

theorem commit_ended (rows : RowVersions κ τ β) (t : τ) : rows.Ended t (rows.commit t) := by
  intro k
  rcases rows.commit_cases t k with hother | ⟨v,hheld,hcommit⟩
  · exact .inl hother
  · exact .inr ⟨v,hheld,by rw [hcommit]⟩

theorem rollback_ended (rows : RowVersions κ τ β) (t : τ) : rows.Ended t (rows.rollback t) := by
  intro k
  rcases rows.rollback_cases t k with hother | ⟨v,hheld,hrollback⟩
  · exact .inl hother
  · exact .inr ⟨v,hheld,by rw [hrollback]⟩

theorem Ended.holder {rows' : RowVersions κ τ β} (h : rows.Ended t rows') (k : κ) :
    rows'.holder k = if rows.holder k = some t then none else rows.holder k := by
  unfold RowVersions.holder
  rcases h k with ⟨hsame,hother⟩ | ⟨v,hheld,hnone⟩
  · rw [hsame,if_neg]
    intro hholder
    obtain ⟨⟨u,v⟩,hheld,hu⟩ := Option.map_eq_some_iff.mp hholder
    exact hother v (hheld.trans (congrArg (fun u => some (u,v)) hu))
  · rw [hheld,hnone]
    exact (if_pos rfl).symm

theorem holder_commit (rows : RowVersions κ τ β) (t : τ) (k : κ) :
    (rows.commit t).holder k = if rows.holder k = some t then none else rows.holder k :=
  (rows.commit_ended t).holder k

theorem holder_rollback (rows : RowVersions κ τ β) (t : τ) (k : κ) :
    (rows.rollback t).holder k = if rows.holder k = some t then none else rows.holder k :=
  (rows.rollback_ended t).holder k

theorem holder_rollback_ne (rows : RowVersions κ τ β) (t : τ) (k : κ) :
    (rows.rollback t).holder k ≠ some t := by
  rw [holder_rollback]
  split
  · nofun
  · assumption

end RowVersions

namespace RowVersions

section Calls

variable {γ : Type*} [Zero β] {call : τ → Option γ} {f : γ → κ → β} {t : τ} {c : γ}

/-- The amounts pending for the open transactions of calls, each read off its call. -/
def pendingOf (call : τ → Option γ) (f : γ → κ → β) (t : τ) (k : κ) : β :=
  match call t with
  | none => 0
  | some c => f c k

theorem pendingOf_eq (hc : call t = some c) (k : κ) : pendingOf call f t k = f c k := by
  rw [pendingOf,hc]

theorem pendingOf_update [DecidableEq τ] (u : τ) (k : κ) :
    pendingOf (Function.update call t (some c)) f u k =
      if u = t then f c k else pendingOf call f u k := by
  unfold pendingOf
  by_cases hu : u = t
  · subst hu
    rw [if_pos rfl,Function.update_self]
  · rw [if_neg hu,Function.update_of_ne hu]

end Calls

variable [DecidableEq τ] [AddCommGroup β]

/-- What `t` has added to a row and not committed. -/
def delta (rows : RowVersions κ τ β) (t : τ) (k : κ) : β :=
  match (rows k).held with
  | none => 0
  | some (u,v) => if u = t then v - (rows k).committed else 0

theorem committed_commit (rows : RowVersions κ τ β) (t : τ) (k : κ) :
    (rows.commit t k).committed = (rows k).committed + rows.delta t k := by
  unfold commit VersionedRow.commit delta
  split
  · rw [add_zero]
  · split
    · dsimp only
      abel
    · rw [add_zero]

theorem Ended.delta {rows rows' : RowVersions κ τ β} {t : τ} (h : rows.Ended t rows') (u : τ)
    (k : κ) : rows'.delta u k = if u = t then 0 else rows.delta u k := by
  unfold RowVersions.delta
  rcases h k with ⟨hsame,hother⟩ | ⟨v,hheld,hnone⟩
  · rw [hsame]
    split
    · simp
    · rename_i a v hheld
      have ha : a ≠ t := fun heq => hother v (by rw [hheld,heq])
      by_cases hu : u = t
      · subst hu
        rw [if_neg ha,if_pos rfl]
      · rw [if_neg hu]
  · rw [hheld,hnone]
    dsimp only
    by_cases hu : u = t
    · rw [if_pos hu]
    · rw [if_neg hu,if_neg (Ne.symm hu)]

theorem delta_commit (rows : RowVersions κ τ β) (t u : τ) (k : κ) :
    (rows.commit t).delta u k = if u = t then 0 else rows.delta u k :=
  (rows.commit_ended t).delta u k

theorem delta_rollback (rows : RowVersions κ τ β) (t u : τ) (k : κ) :
    (rows.rollback t).delta u k = if u = t then 0 else rows.delta u k :=
  (rows.rollback_ended t).delta u k

theorem delta_put [DecidableEq κ] {rows : RowVersions κ τ β} {t : τ} {k : κ} {v : β}
    (hv : (rows k).version t = some v) (d : β) (u : τ) (m : κ) :
    (rows.put t k (v + d)).delta u m = rows.delta u m + if u = t ∧ m = k then d else 0 := by
  by_cases hm : m = k
  · subst hm
    unfold VersionedRow.version at hv
    unfold delta
    rw [put_self]
    dsimp only
    split at hv
    · rename_i hheld
      cases hv
      by_cases hu : u = t
      · subst hu
        simp
      · simp [hu,Ne.symm hu]
    · rename_i a b hheld
      split at hv
      · rename_i ha
        cases hv
        subst ha
        by_cases hu : u = a
        · subst hu
          simp only [if_pos,and_self]
          abel
        · simp [hu,Ne.symm hu]
      · cases hv
  · unfold delta
    rw [put_of_ne _ _ _ hm,if_neg (fun h => hm h.2),add_zero]

/-- The rows hold what was in them at first and what has been posted since, and each
transaction has its pending amounts on top. -/
structure Books (first rows : RowVersions κ τ β) (posted : κ → β) (pending : τ → κ → β) :
    Prop where
  posted : ∀ k, (rows k).committed = (first k).committed + posted k
  pending : ∀ t k, rows.delta t k = pending t k

namespace Books

variable {first rows : RowVersions κ τ β} {posted : κ → β} {pending pending' : τ → κ → β} {t : τ}

theorem start (h : ∀ k, (first k).held = none) :
    Books first first (fun _ => 0) fun _ _ => 0 := by
  refine ⟨fun k => (add_zero _).symm,fun t k => ?_⟩
  unfold delta
  rw [h k]

theorem add [DecidableEq κ] (h : Books first rows posted pending) {k : κ} {v d : β}
    (hv : (rows k).version t = some v)
    (hpending : ∀ u m, pending' u m = pending u m + if u = t ∧ m = k then d else 0) :
    Books first (rows.put t k (v + d)) posted pending' := by
  refine ⟨fun m => ?_,fun u m => ?_⟩
  · rw [committed_put]
    exact h.posted m
  · rw [delta_put hv,h.pending,hpending]

theorem commit (h : Books first rows posted pending) {posted' : κ → β}
    (hposted : ∀ k, posted' k = posted k + pending t k)
    (hpending : ∀ u k, pending' u k = if u = t then 0 else pending u k) :
    Books first (rows.commit t) posted' pending' := by
  refine ⟨fun k => ?_,fun u k => ?_⟩
  · rw [committed_commit,h.posted,h.pending,hposted,add_assoc]
  · rw [delta_commit,hpending,h.pending]

theorem rollback (h : Books first rows posted pending)
    (hpending : ∀ u k, pending' u k = if u = t then 0 else pending u k) :
    Books first (rows.rollback t) posted pending' := by
  refine ⟨fun k => ?_,fun u k => ?_⟩
  · rw [committed_rollback]
    exact h.posted k
  · rw [delta_rollback,hpending,h.pending]

end Books

section Calls

variable {γ : Type*}

variable {first rows : RowVersions κ τ β} {posted posted' : κ → β} {call : τ → Option γ}
  {f : γ → κ → β} {t : τ} {c c' : γ}

namespace Books

theorem keepCall (h : Books first rows posted (pendingOf call f))
    (hf : ∀ k, f c k = pendingOf call f t k) :
    Books first rows posted (pendingOf (Function.update call t (some c)) f) := by
  refine ⟨h.posted,fun u k => ?_⟩
  rw [pendingOf_update,h.pending]
  split
  · rename_i hu
    rw [hf,hu]
  · rfl

theorem addCall [DecidableEq κ] (h : Books first rows posted (pendingOf call f))
    (hc : call t = some c) {k : κ} {v d : β} (hv : (rows k).version t = some v)
    (hf : ∀ m, f c' m = f c m + if m = k then d else 0) :
    Books first (rows.put t k (v + d)) posted
      (pendingOf (Function.update call t (some c')) f) := by
  apply h.add hv
  intro u m
  rw [pendingOf_update]
  by_cases hu : u = t
  · subst hu
    rw [if_pos rfl,hf,pendingOf_eq hc]
    simp only [true_and]
  · rw [if_neg hu,if_neg fun hand => hu hand.1,add_zero]

theorem commitCall (h : Books first rows posted (pendingOf call f)) (hc : call t = some c)
    (hposted : ∀ k, posted' k = posted k + f c k) (hf : ∀ k, f c' k = 0) :
    Books first (rows.commit t) posted' (pendingOf (Function.update call t (some c')) f) := by
  apply h.commit
  · intro k
    rw [hposted,pendingOf_eq hc]
  · intro u k
    rw [pendingOf_update,hf]

theorem rollbackCall (h : Books first rows posted (pendingOf call f)) (hf : ∀ k, f c k = 0) :
    Books first (rows.rollback t) posted (pendingOf (Function.update call t (some c)) f) := by
  apply h.rollback
  intro u k
  rw [pendingOf_update,hf]

end Books

end Calls

end RowVersions

end SystemsLab
