import Mathlib.Data.List.Sort
import Mathlib.Order.Bounds.Basic

/-!
# Order statistics

The entry at index `k` of a sorted list is the least entry that `k + 1` entries do not exceed.
Repeated entries count as often as they occur.
-/

namespace SystemsLab

variable {α : Type*} [LinearOrder α]

/-- How many entries are at most `v`. -/
def rankOf (values : List α) (v : α) : ℕ := values.countP fun x => x ≤ v

def sortAscending (values : List α) : List α := values.mergeSort fun a b => decide (a ≤ b)

variable {values : List α} {k : ℕ}

theorem sortAscending_perm (values : List α) : (sortAscending values).Perm values :=
  List.mergeSort_perm _ _

theorem sortAscending_length (values : List α) : (sortAscending values).length = values.length :=
  List.length_mergeSort _

theorem mem_sortAscending {v : α} : v ∈ sortAscending values ↔ v ∈ values :=
  List.mem_mergeSort

theorem sortAscending_sorted (values : List α) : (sortAscending values).Pairwise (· ≤ ·) := by
  have htrans : ∀ a b c : α, decide (a ≤ b) = true → decide (b ≤ c) = true →
      decide (a ≤ c) = true := by
    intro a b c hab hbc
    exact decide_eq_true ((of_decide_eq_true hab).trans (of_decide_eq_true hbc))
  have htotal : ∀ a b : α, (decide (a ≤ b) || decide (b ≤ a)) = true := by
    intro a b
    simpa using le_total a b
  exact (List.pairwise_mergeSort htrans htotal values).imp fun h => of_decide_eq_true h

theorem sortAscending_congr {values' : List α} (h : values.Perm values') :
    sortAscending values = sortAscending values' := by
  refine @List.Perm.eq_of_pairwise α (· ≤ ·) _ _ ?_ ?_ ?_ ?_
  · exact fun a b _ _ hab hba => le_antisymm hab hba
  · exact sortAscending_sorted values
  · exact sortAscending_sorted values'
  · exact (sortAscending_perm values).trans (h.trans (sortAscending_perm values').symm)

theorem rankOf_sortAscending (values : List α) (v : α) :
    rankOf (sortAscending values) v = rankOf values v :=
  (sortAscending_perm values).countP_eq _

theorem getElem_le_getElem {sorted : List α} (hsorted : sorted.Pairwise (· ≤ ·)) {i j : ℕ}
    (hij : i ≤ j) (hj : j < sorted.length) : sorted[i] ≤ sorted[j] := by
  rcases hij.eq_or_lt with rfl | hlt
  · exact le_rfl
  · exact List.pairwise_iff_getElem.mp hsorted i j (hij.trans_lt hj) hj hlt

theorem le_rankOf_getElem {sorted : List α} (hsorted : sorted.Pairwise (· ≤ ·))
    (hk : k < sorted.length) : k + 1 ≤ rankOf sorted sorted[k] := by
  have htake : (sorted.take (k + 1)).countP (fun x => x ≤ sorted[k]) = k + 1 := by
    rw [List.countP_eq_length.mpr,List.length_take,Nat.min_eq_left hk]
    intro x hx
    obtain ⟨i,hi,rfl⟩ := List.mem_take_iff_getElem.mp hx
    have hik : i ≤ k := by omega
    exact decide_eq_true (getElem_le_getElem hsorted hik hk)
  calc k + 1 = (sorted.take (k + 1)).countP (fun x => x ≤ sorted[k]) := htake.symm
    _ ≤ rankOf sorted sorted[k] := (List.take_sublist _ _).countP_le

theorem rankOf_le {sorted : List α} (hsorted : sorted.Pairwise (· ≤ ·)) (hk : k < sorted.length)
    {v : α} (hv : v < sorted[k]) : rankOf sorted v ≤ k := by
  have hdrop : (sorted.drop k).countP (fun x => x ≤ v) = 0 := by
    rw [List.countP_eq_zero]
    intro x hx
    obtain ⟨i,hi,rfl⟩ := List.mem_drop_iff_getElem.mp hx
    have hle := getElem_le_getElem hsorted (Nat.le_add_right k i) (by omega)
    simpa using hv.trans_le hle
  unfold rankOf
  rw [← List.take_append_drop k sorted,List.countP_append,hdrop,Nat.add_zero]
  exact List.countP_le_length.trans (List.length_take_le _ _)

theorem orderStatistic_isLeast (hk : k < (sortAscending values).length) :
    IsLeast {v | v ∈ values ∧ k + 1 ≤ rankOf values v} (sortAscending values)[k] := by
  have hsorted := sortAscending_sorted values
  constructor
  · refine ⟨mem_sortAscending.mp (List.getElem_mem hk),?_⟩
    rw [← rankOf_sortAscending]
    exact le_rankOf_getElem hsorted hk
  · rintro v ⟨_,hrank⟩
    by_contra hlt
    have hle := rankOf_le hsorted hk (not_le.mp hlt)
    rw [rankOf_sortAscending] at hle
    omega

end SystemsLab
