import Mathlib.Data.Finset.Card
import Mathlib.Data.Finset.Image

/-!
# The search for an unused name

The names are numbered and distinct, and finitely many are used. A search that tries one number
after the other comes to an end, at the first name that is not used.
-/

namespace SystemsLab

variable {α : Type*} [DecidableEq α]

/-- The used names that a search at `k` may still come across. -/
def namesAhead (used : Finset α) (name : ℕ → α) (k : ℕ) : Finset α :=
  used.filter fun a => a ∉ (Finset.range k).image name

/-- A name that is used and has been tried is not ahead any more. -/
theorem namesAhead_ssubset {used : Finset α} {name : ℕ → α} (hname : Function.Injective name)
    {k : ℕ} (hused : name k ∈ used) :
    namesAhead used name (k + 1) ⊂ namesAhead used name k := by
  apply Finset.ssubset_iff_of_subset _ |>.mpr
  · refine ⟨name k,?_,?_⟩
    · simp only [namesAhead,Finset.mem_filter,Finset.mem_image,Finset.mem_range,not_exists,
        not_and]
      refine ⟨hused,fun j hj heq => ?_⟩
      rw [hname heq] at hj
      exact Nat.lt_irrefl k hj
    · simp only [namesAhead,Finset.mem_filter,Finset.mem_image,Finset.mem_range,not_and,not_not]
      exact fun _ => ⟨k,Nat.lt_succ_self k,rfl⟩
  · intro a ha
    simp only [namesAhead,Finset.mem_filter,Finset.mem_image,Finset.mem_range,not_exists,
      not_and] at ha ⊢
    exact ⟨ha.1,fun j hj => ha.2 j (Nat.lt_succ_of_lt hj)⟩

/-- Try the names from number `k` on. -/
def firstUnused (used : Finset α) (name : ℕ → α) (hname : Function.Injective name) (k : ℕ) : ℕ :=
  if _hused : name k ∈ used then firstUnused used name hname (k + 1) else k
termination_by (namesAhead used name k).card
decreasing_by exact Finset.card_lt_card (namesAhead_ssubset hname _hused)

theorem firstUnused_notMem (used : Finset α) (name : ℕ → α) (hname : Function.Injective name)
    (k : ℕ) : name (firstUnused used name hname k) ∉ used := by
  fun_induction firstUnused used name hname k with
  | case1 k hused ih => exact ih
  | case2 k hunused => exact hunused

theorem toDigits_injective : Function.Injective (Nat.toDigits 10) := by
  intro m n h
  calc m = Nat.ofDigitChars 10 (Nat.toDigits 10 m) 0 := Nat.ofDigitChars_ten_toDigits.symm
    _ = Nat.ofDigitChars 10 (Nat.toDigits 10 n) 0 := by rw [h]
    _ = n := Nat.ofDigitChars_ten_toDigits

end SystemsLab
