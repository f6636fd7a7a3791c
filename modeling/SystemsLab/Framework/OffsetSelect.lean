import SystemsLab.Framework.OrderedSelect
import Mathlib.Algebra.GroupWithZero.Nat
import Mathlib.Data.List.Count

/-!
# Selections by position

`SELECT … ORDER BY key LIMIT n OFFSET m` takes rows by their positions, and the position of a row
is the number of rows ahead of it. A row that comes in or goes away moves the rows behind it by
one, so that it takes one row at most across a given offset.
-/

namespace SystemsLab

variable {ρ κ : Type*} [LinearOrder κ]

/-- `SELECT … ORDER BY key LIMIT limit OFFSET offset`. -/
def selectOffset (key : ρ → κ) (limit offset : Nat) (rows : List ρ) : List ρ :=
  ((orderBy key rows).drop offset).take limit

/-- How many rows are ahead of `r`. -/
def position (key : ρ → κ) (rows : List ρ) (r : ρ) : Nat := rows.countP fun q => key q < key r

variable {key : ρ → κ} {limit offset n : Nat} {rows : List ρ} {r q : ρ}

theorem position_orderBy (key : ρ → κ) (rows : List ρ) (r : ρ) :
    position key (orderBy key rows) r = position key rows r :=
  (orderBy_perm key rows).countP_eq _

theorem position_lt_length (hr : r ∈ rows) : position key rows r < rows.length := by
  apply List.countP_lt_length_iff.mpr
  exact ⟨r,hr,decide_eq_false (lt_irrefl _)⟩

theorem position_getElem {ordered : List ρ} (hsorted : ordered.Pairwise fun r q => key r < key q)
    {i : Nat} (hi : i < ordered.length) : position key ordered ordered[i] = i := by
  have hsplit := List.take_append_drop i ordered
  rw [List.drop_eq_getElem_cons hi] at hsplit
  have hpairs := hsorted
  rw [← hsplit,List.pairwise_append,List.pairwise_cons] at hpairs
  have hahead : (ordered.take i).countP (fun q => key q < key ordered[i]) = i := by
    rw [List.countP_eq_length.mpr,List.length_take,Nat.min_eq_left (Nat.le_of_lt hi)]
    intro q hq
    exact decide_eq_true (hpairs.2.2 q hq _ List.mem_cons_self)
  have hbehind : (ordered.drop (i + 1)).countP (fun q => key q < key ordered[i]) = 0 := by
    apply List.countP_eq_zero.mpr
    intro q hq hlt
    exact (hpairs.2.1.1 q hq).asymm (of_decide_eq_true hlt)
  calc position key ordered ordered[i]
      = (ordered.take i ++ ordered[i]::ordered.drop (i + 1)).countP
          (fun q => key q < key ordered[i]) := by rw [hsplit]; rfl
    _ = i := by
      rw [List.countP_append,List.countP_cons,hahead,hbehind]
      simp only [lt_irrefl,decide_false,Bool.false_eq_true,if_false,Nat.add_zero]

theorem exists_getElem_orderBy (hn : (rows.map key).Nodup) (hr : r ∈ rows) :
    ∃ h : position key rows r < (orderBy key rows).length,
      (orderBy key rows)[position key rows r] = r := by
  obtain ⟨i,hi,hget⟩ := List.getElem_of_mem ((orderBy_perm key rows).mem_iff.mpr hr)
  have hposition := position_getElem (orderBy_strict hn) hi
  rw [hget,position_orderBy] at hposition
  subst hposition
  exact ⟨hi,hget⟩

/-- A selection has the rows whose positions it asks for. -/
theorem mem_selectOffset_iff (hn : (rows.map key).Nodup) :
    r ∈ selectOffset key limit offset rows ↔
      r ∈ rows ∧ offset ≤ position key rows r ∧ position key rows r < offset + limit := by
  rw [selectOffset,List.mem_take_iff_getElem]
  constructor
  · rintro ⟨j,hj,rfl⟩
    rw [List.length_drop] at hj
    have hi : offset + j < (orderBy key rows).length := by omega
    rw [List.getElem_drop,← position_orderBy key rows,position_getElem (orderBy_strict hn) hi]
    refine ⟨(orderBy_perm key rows).mem_iff.mp (List.getElem_mem hi),by omega,by omega⟩
  · intro ⟨hr,hfrom,hto⟩
    obtain ⟨hlength,hget⟩ := exists_getElem_orderBy hn hr
    refine ⟨position key rows r - offset,by rw [List.length_drop]; omega,?_⟩
    simp only [List.getElem_drop,Nat.add_sub_cancel' hfrom,hget]

theorem selectOffset_nodup (hn : rows.Nodup) : (selectOffset key limit offset rows).Nodup := by
  have hordered : (orderBy key rows).Nodup := (orderBy_perm key _).nodup_iff.mpr hn
  exact hordered.sublist ((List.take_sublist _ _).trans (List.drop_sublist _ _))

theorem position_lt_of_selectOffset_nil (hlimit : 0 < limit)
    (hnil : selectOffset key limit offset rows = []) (hr : r ∈ rows) :
    position key rows r < offset := by
  have hlength := congrArg List.length hnil
  rw [selectOffset,List.length_take,List.length_drop,(orderBy_perm key rows).length_eq,
    List.length_nil] at hlength
  have hposition : position key rows r < rows.length := position_lt_length hr
  omega

theorem position_insert (key : ρ → κ) (rows : List ρ) (q r : ρ) :
    position key (rows ++ [q]) r = position key rows r + if key q < key r then 1 else 0 := by
  simp only [position,List.countP_append,List.countP_singleton,decide_eq_true_eq]

theorem position_filter_add (key : ρ → κ) (keep : ρ → Bool) (rows : List ρ) (r : ρ) :
    position key (rows.filter keep) r + rows.countP (fun q => !keep q && decide (key q < key r)) =
      position key rows r := by
  unfold position
  induction rows with
  | nil => rfl
  | cons q rows ih =>
    cases hkeep : keep q with
    | true =>
      simp only [List.filter_cons_of_pos hkeep,List.countP_cons,hkeep,Bool.not_true,Bool.false_and]
      simp only [Bool.false_eq_true,if_false,Nat.add_zero]
      omega
    | false =>
      have hdrop : ¬ keep q = true := by rw [hkeep]; nofun
      simp only [List.filter_cons_of_neg hdrop,List.countP_cons,hkeep,Bool.not_false,Bool.true_and]
      omega

theorem position_lt_of_lt (hr : r ∈ rows) (h : key r < key q) :
    position key rows r < position key rows q := by
  obtain ⟨before,rest,rfl⟩ := List.append_of_mem hr
  have hmono : ∀ p : ρ, decide (key p < key r) = true → decide (key p < key q) = true := by
    intro p hp
    exact decide_eq_true ((of_decide_eq_true hp).trans h)
  have hbefore := List.countP_mono_left (l := before) fun p _ => hmono p
  have hrest := List.countP_mono_left (l := rest) fun p _ => hmono p
  simp only [position,List.countP_append,List.countP_cons,lt_irrefl,h,decide_false,decide_true]
  simp only [Bool.false_eq_true,if_false,if_true]
  omega

theorem eq_of_position_eq (hn : (rows.map key).Nodup) (hr : r ∈ rows) (hq : q ∈ rows)
    (h : position key rows r = position key rows q) : r = q := by
  rcases lt_trichotomy (key r) (key q) with hlt | heq | hlt
  · exact absurd h (position_lt_of_lt hr hlt).ne
  · exact eq_of_key_eq hn hr hq heq
  · exact absurd h (position_lt_of_lt hq hlt).ne'

theorem countP_position_le_one {chosen : List ρ} (hchosen : chosen.Nodup)
    (hrows : ∀ r ∈ chosen, r ∈ rows) (hn : (rows.map key).Nodup) (n : Nat) :
    chosen.countP (fun r => position key rows r = n) ≤ 1 := by
  induction chosen with
  | nil => exact Nat.zero_le _
  | cons r chosen ih =>
    obtain ⟨hfresh,hnodup⟩ := List.nodup_cons.mp hchosen
    obtain ⟨hr,hrest⟩ := List.forall_mem_cons.mp hrows
    rw [List.countP_cons]
    by_cases hposition : position key rows r = n
    · have hothers : chosen.countP (fun q => position key rows q = n) = 0 := by
        apply List.countP_eq_zero.mpr
        intro q hq hsame
        have heq := eq_of_position_eq hn hr (hrest q hq)
          (hposition.trans (of_decide_eq_true hsame).symm)
        exact hfresh (heq ▸ hq)
      rw [hothers,Nat.zero_add]
      split <;> omega
    · rw [if_neg (by simpa using hposition)]
      exact ih hnodup hrest

theorem sum_le_sum_add_countP {chosen : List ρ} {cost cost' : ρ → Nat} {p : ρ → Bool}
    (h : ∀ r ∈ chosen, cost' r ≤ cost r + if p r then 1 else 0) :
    (chosen.map cost').sum ≤ (chosen.map cost).sum + chosen.countP p := by
  induction chosen with
  | nil => exact Nat.zero_le _
  | cons r chosen ih =>
    obtain ⟨hr,hrest⟩ := List.forall_mem_cons.mp h
    have hsum := ih hrest
    simp only [List.map_cons,List.sum_cons,List.countP_cons]
    omega

theorem sum_le_sum_add_one {chosen : List ρ} {cost cost' : ρ → Nat} (hchosen : chosen.Nodup)
    (hrows : ∀ r ∈ chosen, r ∈ rows) (hn : (rows.map key).Nodup)
    (h : ∀ r ∈ chosen, cost' r ≤ cost r + if position key rows r = n then 1 else 0) :
    (chosen.map cost').sum ≤ (chosen.map cost).sum + 1 := by
  have hsum : (chosen.map cost').sum ≤
      (chosen.map cost).sum + chosen.countP (fun r => position key rows r = n) := by
    apply sum_le_sum_add_countP
    intro r hr
    simpa only [decide_eq_true_eq] using h r hr
  have hone := countP_position_le_one hchosen hrows hn n
  omega

theorem sum_le_sum_of_le {chosen : List ρ} {cost cost' : ρ → Nat}
    (h : ∀ r ∈ chosen, cost' r ≤ cost r) : (chosen.map cost').sum ≤ (chosen.map cost).sum := by
  have hsum := sum_le_sum_add_countP (p := fun _ => false) h
  rw [List.countP_false] at hsum
  exact hsum

end SystemsLab
