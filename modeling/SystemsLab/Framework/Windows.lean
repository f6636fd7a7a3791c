import Mathlib.Data.List.Basic
import Mathlib.Data.List.Perm.Subperm

/-!
# How many fall into a window

Points of time are integers. `between a b` counts those after `a` and not after `b`, `after a` all
those after `a`. What holds of every window of one length bounds the longer windows.
-/

namespace SystemsLab

def between (a b : Int) (times : List Int) : Nat := times.countP fun t => a < t ∧ t ≤ b

def after (a : Int) (times : List Int) : Nat := times.countP fun t => a < t

variable {a b c : Int} {times more : List Int} {width bound k : Nat}

theorem between_cons (a b t : Int) (times : List Int) :
    between a b (t::times) = between a b times + if a < t ∧ t ≤ b then 1 else 0 := by
  simp only [between,List.countP_cons,decide_eq_true_eq]

theorem after_cons (a t : Int) (times : List Int) :
    after a (t::times) = after a times + if a < t then 1 else 0 := by
  simp only [after,List.countP_cons,decide_eq_true_eq]

theorem between_append (a b : Int) (times more : List Int) :
    between a b (times ++ more) = between a b times + between a b more := List.countP_append

theorem after_append (a : Int) (times more : List Int) :
    after a (times ++ more) = after a times + after a more := List.countP_append

theorem between_le_append (a b : Int) (times more : List Int) :
    between a b times ≤ between a b (times ++ more) := by
  rw [between_append]
  exact Nat.le_add_right _ _

theorem between_singleton_of_not {t : Int} (h : ¬ (a < t ∧ t ≤ b)) : between a b [t] = 0 :=
  List.countP_eq_zero.mpr fun s hs => by
    rw [List.mem_singleton.mp hs]
    simpa using h

theorem after_eq_zero (h : ∀ t ∈ times, t ≤ a) : after a times = 0 := by
  refine List.countP_eq_zero.mpr fun t ht => ?_
  have hle := h t ht
  simp only [decide_eq_true_eq]
  omega

theorem between_self (a : Int) (times : List Int) : between a a times = 0 := by
  refine List.countP_eq_zero.mpr fun t _ => ?_
  simp only [decide_eq_true_eq]
  omega

theorem after_eq_between_add (hab : a ≤ b) (times : List Int) :
    after a times = between a b times + after b times := by
  induction times with
  | nil => rfl
  | cons t times ih =>
    rw [after_cons,after_cons,between_cons,ih]
    by_cases hb : t ≤ b
    · simp only [hb,and_true,if_neg (Int.not_lt.mpr hb)]
      omega
    · have hat : a < t := by omega
      simp only [hb,and_false,if_false,if_pos hat,if_pos (Int.not_le.mp hb)]
      omega

theorem between_eq_add (hab : a ≤ b) (hbc : b ≤ c) (times : List Int) :
    between a c times = between a b times + between b c times := by
  have hac := after_eq_between_add (Int.le_trans hab hbc) times
  have hleft := after_eq_between_add hab times
  have hright := after_eq_between_add hbc times
  omega

/-- What every window holds at most bounds `k` of them in a row. -/
theorem between_le_mul (h : ∀ s, between s (s + width) times ≤ bound) (a : Int) (k : Nat) :
    between a (a + (k * width : Nat)) times ≤ k * bound := by
  induction k with
  | zero =>
    have hzero : between a (a + (0 * width : Nat)) times = 0 := by
      simp only [Nat.zero_mul,Int.natCast_zero,Int.add_zero,between_self]
    exact Nat.le_trans (Nat.le_of_eq hzero) (Nat.zero_le _)
  | succ k ih =>
    have hlast := h (a + (k * width : Nat))
    have hsplit : a + ((k + 1) * width : Nat) = a + (k * width : Nat) + width := by
      rw [Nat.succ_mul]
      omega
    rw [hsplit,between_eq_add (b := a + (k * width : Nat)) (by omega) (by omega),Nat.succ_mul]
    exact Nat.add_le_add ih hlast

/-- What every window holds at least that begins at `a` or later and ends before `now` is there
`k` times if `k` of them have passed. -/
theorem mul_le_after {now : Int}
    (h : ∀ s, a ≤ s → s + width < now → bound ≤ between s (s + width) times)
    (hk : a + (k * width : Nat) < now) : k * bound ≤ after a times := by
  induction k generalizing a with
  | zero =>
    rw [Nat.zero_mul]
    exact Nat.zero_le _
  | succ k ih =>
    rw [Nat.succ_mul] at hk ⊢
    have hfirst := h a (Int.le_refl a) (by omega)
    have hrest := ih (a := a + width) (fun s hs => h s (by omega)) (by omega)
    rw [after_eq_between_add (b := a + width) (by omega)]
    omega

variable {κ : Type*} {log : List (κ × Int)} {keys : List κ}

theorem between_eq_length (a b : Int) (log : List (κ × Int)) :
    between a b (log.map Prod.snd) = (log.filter fun x => a < x.2 ∧ x.2 ≤ b).length := by
  rw [between,List.countP_map,List.countP_eq_length_filter]
  rfl

theorem between_le_length (hlog : (log.map Prod.fst).Nodup)
    (h : ∀ k t, (k,t) ∈ log → a < t → t ≤ b → k ∈ keys) :
    between a b (log.map Prod.snd) ≤ keys.length := by
  rw [between_eq_length,← List.length_map (f := Prod.fst)]
  have hnodup : ((log.filter fun x => a < x.2 ∧ x.2 ≤ b).map Prod.fst).Nodup :=
    hlog.sublist (List.filter_sublist.map Prod.fst)
  refine (List.Nodup.subperm hnodup fun k hk => ?_).length_le
  obtain ⟨⟨k,t⟩,hmem,rfl⟩ := List.mem_map.mp hk
  obtain ⟨hin,hwindow⟩ := List.mem_filter.mp hmem
  obtain ⟨ha,hb⟩ := of_decide_eq_true hwindow
  exact h k t hin ha hb

theorem length_le_between (hkeys : keys.Nodup)
    (h : ∀ k ∈ keys, ∃ t, (k,t) ∈ log ∧ a < t ∧ t ≤ b) :
    keys.length ≤ between a b (log.map Prod.snd) := by
  rw [between_eq_length,← List.length_map (f := Prod.fst)]
  refine (List.Nodup.subperm hkeys fun k hk => ?_).length_le
  obtain ⟨t,hin,hwindow⟩ := h k hk
  exact List.mem_map.mpr ⟨(k,t),List.mem_filter.mpr ⟨hin,decide_eq_true hwindow⟩,rfl⟩

theorem idxOf_erase_le [DecidableEq κ] {k l : κ} (h : k ≠ l) (line : List κ) :
    (line.erase k).idxOf l ≤ line.idxOf l := by
  induction line with
  | nil => exact Nat.le_refl _
  | cons m line ih =>
    by_cases hm : m = k
    · subst hm
      rw [List.erase_cons_head,List.idxOf_cons_ne line h]
      exact Nat.le_succ _
    · rw [List.erase_cons_tail (by simpa using hm)]
      by_cases hl : m = l
      · rw [List.idxOf_cons_eq _ hl]
        exact Nat.zero_le _
      · rw [List.idxOf_cons_ne _ hl,List.idxOf_cons_ne _ hl]
        exact Nat.succ_le_succ ih

end SystemsLab
