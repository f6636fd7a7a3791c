import SystemsLab.Framework.Table
import Mathlib.Data.List.Sort

/-!
# Ordered selections, and walks from one to the next

`SELECT … WHERE p ORDER BY key LIMIT n`, and what a reader sees who asks again and again for the
rows beyond the last one received, while the table changes between the questions.
-/

namespace SystemsLab

variable {ρ κ : Type*} [LinearOrder κ]

def orderBy (key : ρ → κ) (rows : List ρ) : List ρ :=
  rows.insertionSort fun r q => key r ≤ key q

/-- `SELECT … WHERE p ORDER BY key LIMIT limit`. -/
def selectOrdered (p : ρ → Bool) (key : ρ → κ) (limit : Nat) (rows : List ρ) : List ρ :=
  (orderBy key (rows.filter p)).take limit

variable {p : ρ → Bool} {key : ρ → κ} {limit : Nat} {rows : List ρ} {r q : ρ}

theorem orderBy_perm (key : ρ → κ) (rows : List ρ) : (orderBy key rows).Perm rows :=
  List.perm_insertionSort _ _

theorem orderBy_pairwise (key : ρ → κ) (rows : List ρ) :
    (orderBy key rows).Pairwise fun r q => key r ≤ key q := by
  have htotal : Std.Total fun r q : ρ => key r ≤ key q := ⟨fun r q => le_total (key r) (key q)⟩
  have htrans : IsTrans ρ fun r q => key r ≤ key q := ⟨fun _ _ _ => le_trans⟩
  exact List.pairwise_insertionSort _ rows

/-- Ordered by a primary key, the rows are strictly ordered. -/
theorem orderBy_strict (hn : (rows.map key).Nodup) :
    (orderBy key rows).Pairwise fun r q => key r < key q := by
  have hkeys : ((orderBy key rows).map key).Nodup :=
    ((orderBy_perm key rows).map key).nodup_iff.mpr hn
  have hne := List.pairwise_map.mp hkeys
  exact ((orderBy_pairwise key rows).and hne).imp fun h => lt_of_le_of_ne h.1 h.2

/-- There is only one way to order the rows by a primary key. -/
theorem eq_orderBy_of_mem_iff {ordered : List ρ} (hn : (rows.map key).Nodup)
    (hsorted : ordered.Pairwise fun r q => key r < key q)
    (hmem : ∀ r, r ∈ ordered ↔ r ∈ rows) : ordered = orderBy key rows := by
  have hirrefl : Std.Irrefl fun r q : ρ => key r < key q := ⟨fun r => lt_irrefl (key r)⟩
  have hantisymm : Std.Antisymm fun r q : ρ => key r < key q :=
    ⟨fun _ _ hrq hqr => absurd hqr hrq.asymm⟩
  refine List.Pairwise.eq_of_mem_iff hsorted (orderBy_strict hn) fun r => ?_
  rw [hmem,(orderBy_perm key rows).mem_iff]

theorem mem_selectOrdered (h : r ∈ selectOrdered p key limit rows) : r ∈ rows ∧ p r = true := by
  have hmem := (orderBy_perm key _).mem_iff.mp (List.mem_of_mem_take h)
  simpa using hmem

theorem selectOrdered_nodup (hn : rows.Nodup) : (selectOrdered p key limit rows).Nodup := by
  have hordered : (orderBy key (rows.filter p)).Nodup :=
    (orderBy_perm key _).nodup_iff.mpr (hn.filter p)
  exact hordered.sublist (List.take_sublist _ _)

theorem selectOrdered_length (p : ρ → Bool) (key : ρ → κ) (limit : Nat) (rows : List ρ) :
    (selectOrdered p key limit rows).length = min limit (rows.countP p) := by
  rw [selectOrdered,List.length_take,(orderBy_perm key _).length_eq,List.countP_eq_length_filter]

theorem selectOrdered_strict (hn : (rows.map key).Nodup) :
    (selectOrdered p key limit rows).Pairwise fun r q => key r < key q := by
  have hfiltered : ((rows.filter p).map key).Nodup := hn.sublist (List.filter_sublist.map key)
  exact (orderBy_strict hfiltered).sublist (List.take_sublist _ _)

theorem selectOrdered_eq_nil (hlimit : 0 < limit) :
    selectOrdered p key limit rows = [] ↔ ∀ r ∈ rows, p r = false := by
  rw [← List.length_eq_zero_iff,selectOrdered_length]
  have hmin : min limit (rows.countP p) = 0 ↔ rows.countP p = 0 := by omega
  rw [hmin,List.countP_eq_zero]
  simp

theorem lt_of_not_selected (hn : (rows.map key).Nodup) (hr : r ∈ rows) (hp : p r = true)
    (hout : r ∉ selectOrdered p key limit rows) (hq : q ∈ selectOrdered p key limit rows) :
    key q < key r := by
  have hfiltered : ((rows.filter p).map key).Nodup := hn.sublist (List.filter_sublist.map key)
  have hsplit := List.take_append_drop limit (orderBy key (rows.filter p))
  have hstrict := orderBy_strict hfiltered
  rw [← hsplit,List.pairwise_append] at hstrict
  have hmem : r ∈ orderBy key (rows.filter p) :=
    (orderBy_perm key _).mem_iff.mpr (List.mem_filter.mpr ⟨hr,hp⟩)
  rw [← hsplit,List.mem_append] at hmem
  exact hstrict.2.2 q hq r (hmem.resolve_left hout)

theorem selectOrdered_head (hn : (rows.map key).Nodup) (hlimit : 0 < limit) (hr : r ∈ rows)
    (hp : p r = true) : ∃ first ∈ selectOrdered p key limit rows, key first ≤ key r := by
  by_cases hin : r ∈ selectOrdered p key limit rows
  · exact ⟨r,hin,le_rfl⟩
  cases hpage : selectOrdered p key limit rows with
  | nil =>
    have hnone := (selectOrdered_eq_nil hlimit).mp hpage r hr
    rw [hp] at hnone
    cases hnone
  | cons first rest =>
    have hfirst : first ∈ selectOrdered p key limit rows := by
      rw [hpage]
      exact List.mem_cons_self
    exact ⟨first,List.mem_cons_self,(lt_of_not_selected hn hr hp hin hfirst).le⟩

/-- A reader has seen the rows `delivered`, and asks for the rows beyond `after`. -/
structure Walk (ρ κ : Type*) where
  seen : List (List ρ) := []
  delivered : List ρ := []
  after : Option κ := none

namespace Walk

/-- The rows that are still to come. -/
def beyond (key : ρ → κ) (after : Option κ) (r : ρ) : Bool :=
  after.all fun k => decide (k < key r)

def page (key : ρ → κ) (limit : Nat) (walk : Walk ρ κ) (rows : List ρ) : List ρ :=
  selectOrdered (beyond key walk.after) key limit rows

/-- The next page, from the table as it is by now. -/
def next (key : ρ → κ) (limit : Nat) (walk : Walk ρ κ) (rows : List ρ) : Walk ρ κ where
  seen := walk.seen ++ [rows]
  delivered := walk.delivered ++ walk.page key limit rows
  after := ((walk.page key limit rows).getLast?.map key).or walk.after

/-- Nothing is delivered twice or out of order, and nothing that was always there is passed over. -/
structure Faithful (key : ρ → κ) (walk : Walk ρ κ) : Prop where
  fresh : walk.seen = [] → walk.after = none
  sorted : walk.delivered.Pairwise fun r q => key r < key q
  passed : ∀ r ∈ walk.delivered, beyond key walk.after r = false
  complete : ∀ r, (∀ rows ∈ walk.seen, r ∈ rows) → beyond key walk.after r = false →
    r ∈ walk.delivered

variable {walk : Walk ρ κ} {after : Option κ}

theorem beyond_some (key : ρ → κ) (k : κ) (r : ρ) : beyond key (some k) r = decide (k < key r) :=
  rfl

theorem lt_of_beyond (hr : beyond key after r = false) (hq : beyond key after q = true) :
    key r < key q := by
  cases after with
  | none => cases hr
  | some k =>
    have hpassed : ¬ k < key r := of_decide_eq_false hr
    have hahead : k < key q := of_decide_eq_true hq
    exact (not_lt.mp hpassed).trans_lt hahead

theorem beyond_of_mem_page (hr : r ∈ walk.page key limit rows) :
    beyond key walk.after r = true :=
  (mem_selectOrdered hr).2

/-- The next page starts from the last row of this one, if it has any. -/
theorem next_after (key : ρ → κ) (limit : Nat) (walk : Walk ρ κ) (rows : List ρ) :
    (walk.page key limit rows = [] ∧ (walk.next key limit rows).after = walk.after) ∨
      ∃ last ∈ walk.page key limit rows, (walk.next key limit rows).after = some (key last) ∧
        ∀ r ∈ walk.page key limit rows, key r ≤ key last := by
  cases hpage : (walk.page key limit rows).getLast? with
  | none =>
    refine .inl ⟨List.getLast?_eq_none_iff.mp hpage,?_⟩
    simp [next,hpage]
  | some last =>
    refine .inr ⟨last,List.mem_of_getLast? hpage,by simp [next,hpage],?_⟩
    obtain ⟨init,hinit⟩ := List.getLast?_eq_some_iff.mp hpage
    have hsorted : (walk.page key limit rows).Pairwise fun r q => key r ≤ key q :=
      (orderBy_pairwise key _).sublist (List.take_sublist _ _)
    rw [hinit,List.pairwise_append] at hsorted
    intro r hr
    rw [hinit] at hr
    rcases List.mem_append.mp hr with hr | hr
    · exact hsorted.2.2 r hr last (List.mem_singleton_self last)
    · rw [List.mem_singleton.mp hr]

namespace Faithful

theorem start (key : ρ → κ) : Faithful key {} :=
  ⟨fun _ => rfl,.nil,nofun,nofun⟩

/-- Asking for the next page moves past its rows, and past nothing that it leaves out. -/
theorem next_passed (h : walk.Faithful key) :
    ∀ r ∈ (walk.next key limit rows).delivered,
      beyond key (walk.next key limit rows).after r = false := by
  intro r hr
  rcases next_after key limit walk rows with ⟨hnil,hafter⟩ | ⟨last,hlast,hafter,hmax⟩
  · have hold : r ∈ walk.delivered := by simpa [next,hnil] using hr
    rw [hafter]
    exact h.passed r hold
  · rw [hafter,beyond_some]
    apply decide_eq_false
    rw [not_lt]
    rcases List.mem_append.mp hr with hr | hr
    · exact (lt_of_beyond (h.passed r hr) (beyond_of_mem_page hlast)).le
    · exact hmax r hr

theorem mem_page_of_passed (hn : (rows.map key).Nodup) (hr : r ∈ rows)
    (hahead : beyond key walk.after r = true)
    (hpassed : beyond key (walk.next key limit rows).after r = false) :
    r ∈ walk.page key limit rows := by
  by_contra hout
  rcases next_after key limit walk rows with ⟨_,hafter⟩ | ⟨last,hlast,hafter,_⟩
  · rw [hafter,hahead] at hpassed
    cases hpassed
  · have hlt := lt_of_not_selected hn hr hahead hout hlast
    rw [hafter,beyond_some,decide_eq_false_iff_not] at hpassed
    exact hpassed hlt

theorem next (h : walk.Faithful key) (limit : Nat) (hn : (rows.map key).Nodup) :
    (walk.next key limit rows).Faithful key := by
  refine ⟨?_,?_,h.next_passed,?_⟩
  · intro hseen
    simp [Walk.next] at hseen
  · refine List.pairwise_append.mpr ⟨h.sorted,selectOrdered_strict hn,?_⟩
    intro r hr q hq
    exact lt_of_beyond (h.passed r hr) (beyond_of_mem_page hq)
  · intro r hseen hpassed
    have hrows : r ∈ rows := hseen rows (by simp [Walk.next])
    have hbefore : ∀ rows ∈ walk.seen, r ∈ rows := by
      intro rows' hrows'
      exact hseen rows' (List.mem_append_left _ hrows')
    apply List.mem_append.mpr
    cases hahead : beyond key walk.after r with
    | false => exact .inl (h.complete r hbefore hahead)
    | true => exact .inr (mem_page_of_passed hn hrows hahead hpassed)

end Faithful

/-- An empty page is the end: nothing is left beyond it. -/
theorem passed_of_page_nil (hlimit : 0 < limit) (hpage : walk.page key limit rows = [])
    (hr : r ∈ rows) : beyond key (walk.next key limit rows).after r = false := by
  rcases next_after key limit walk rows with ⟨_,hafter⟩ | ⟨last,hlast,_⟩
  · rw [hafter]
    exact (selectOrdered_eq_nil hlimit).mp hpage r hr
  · rw [hpage] at hlast
    cases hlast

theorem countP_beyond_lt (hpage : walk.page key limit rows ≠ []) :
    rows.countP (beyond key (walk.next key limit rows).after) <
      rows.countP (beyond key walk.after) := by
  rcases next_after key limit walk rows with ⟨hnil,_⟩ | ⟨last,hlast,hafter,_⟩
  · exact absurd hnil hpage
  have hmem := mem_selectOrdered hlast
  have hahead : ∀ r, beyond key (some (key last)) r = true → beyond key walk.after r = true := by
    intro r hr
    rw [beyond_some,decide_eq_true_iff] at hr
    cases hold : beyond key walk.after r with
    | true => rfl
    | false => exact absurd hr (lt_of_beyond hold hmem.2).asymm
  have hlast' : beyond key (some (key last)) last = false := by
    rw [beyond_some]
    exact decide_eq_false (lt_irrefl _)
  rw [hafter]
  obtain ⟨before,rest,hrows⟩ := List.append_of_mem hmem.1
  rw [hrows,List.countP_append,List.countP_append,List.countP_cons_of_pos hmem.2,
    List.countP_cons_of_neg (by rw [hlast']; nofun)]
  have hbefore := List.countP_mono_left (l := before) fun r _ => hahead r
  have hrest := List.countP_mono_left (l := rest) fun r _ => hahead r
  omega

theorem Faithful.eq_orderBy (h : walk.Faithful key) (hn : (rows.map key).Nodup)
    (hmem : ∀ r, r ∈ walk.delivered ↔ r ∈ rows) : walk.delivered = orderBy key rows :=
  eq_orderBy_of_mem_iff hn h.sorted hmem

end Walk

end SystemsLab
