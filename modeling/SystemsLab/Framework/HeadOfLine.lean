import Mathlib.Data.List.Basic
import Mathlib.Data.List.Sort
import Mathlib.Tactic.Basic

/-!
# Rounds over the head of a queue

Each round takes the first `limit` items in the order of a key and serves those that are not stuck.
Items of one key may come in any order, and stuck items stay where they are, so that enough of them
at the head block everything behind.
-/

namespace SystemsLab

variable {ρ κ : Type*} [LinearOrder κ]

/-- One round leaves the stuck items of the head and all that was behind it. -/
def Round (stuck : ρ → Bool) (key : ρ → κ) (limit : Nat) (queue queue' : List ρ) : Prop :=
  ∃ ordered : List ρ, ordered.Perm queue ∧ (ordered.Pairwise fun r q => key r ≤ key q) ∧
    queue'.Perm ((ordered.take limit).filter stuck ++ ordered.drop limit)

inductive Rounds (stuck : ρ → Bool) (key : ρ → κ) (limit : Nat) : Nat → List ρ → List ρ → Prop
  | zero (queue : List ρ) : Rounds stuck key limit 0 queue queue
  | succ {k : Nat} {queue queue' queue'' : List ρ} : Rounds stuck key limit k queue queue' →
      Round stuck key limit queue' queue'' → Rounds stuck key limit (k + 1) queue queue''

variable {stuck : ρ → Bool} {key : ρ → κ} {limit k : Nat} {queue queue' : List ρ} {r : ρ}

/-- The stuck items that are not behind `r`. -/
def blocking (stuck : ρ → Bool) (key : ρ → κ) (r : ρ) (queue : List ρ) : Nat :=
  queue.countP fun q => stuck q && decide (key q ≤ key r)

/-- The stuck items that are ahead of `r`. -/
def ahead (stuck : ρ → Bool) (key : ρ → κ) (r : ρ) (queue : List ρ) : Nat :=
  queue.countP fun q => stuck q && decide (key q < key r)

/-- The items to serve that are not behind `r`. -/
def waiting (stuck : ρ → Bool) (key : ρ → κ) (r : ρ) (queue : List ρ) : Nat :=
  queue.countP fun q => !stuck q && decide (key q ≤ key r)

theorem waiting_add_blocking (stuck : ρ → Bool) {front : List ρ} (hfront : ∀ q ∈ front, key q ≤ key r) :
    waiting stuck key r front + blocking stuck key r front = front.length := by
  unfold waiting blocking
  induction front with
  | nil => rfl
  | cons q front ih =>
    have hq : key q ≤ key r := hfront q List.mem_cons_self
    have hrest := ih fun q hq => hfront q (List.mem_cons_of_mem _ hq)
    rw [List.countP_cons,List.countP_cons,List.length_cons,← hrest]
    cases hs : stuck q with
    | false =>
      rw [if_pos (by simpa using hq),if_neg (by simp)]
      omega
    | true =>
      rw [if_neg (by simp),if_pos (by simpa using hq)]
      omega

namespace Round

theorem mem_of_mem (h : Round stuck key limit queue queue') (hr : r ∈ queue') : r ∈ queue := by
  obtain ⟨ordered,hperm,_,hleft⟩ := h
  refine hperm.subset ?_
  rcases List.mem_append.mp (hleft.subset hr) with hr | hr
  · exact List.mem_of_mem_take (List.mem_of_mem_filter hr)
  · exact List.mem_of_mem_drop hr

theorem countP_stuck (h : Round stuck key limit queue queue') {p : ρ → Bool}
    (hp : ∀ q, p q = true → stuck q = true) : queue'.countP p = queue.countP p := by
  obtain ⟨ordered,hperm,_,hleft⟩ := h
  have htake : ((ordered.take limit).filter stuck).countP p = (ordered.take limit).countP p := by
    rw [List.countP_filter]
    refine List.countP_congr fun q _ => ?_
    rw [Bool.and_eq_true]
    exact ⟨And.left,fun hq => ⟨hq,hp q hq⟩⟩
  rw [hleft.countP_eq,List.countP_append,htake,← List.countP_append,List.take_append_drop,
    hperm.countP_eq]

/-- As long as `r` is not served, the whole head is not behind it. -/
theorem progress (h : Round stuck key limit queue queue') (hstuck : stuck r = false)
    (hr : r ∈ queue') :
    waiting stuck key r queue' + limit ≤ waiting stuck key r queue + blocking stuck key r queue := by
  obtain ⟨ordered,hperm,hsorted,hleft⟩ := h
  have hdrop : r ∈ ordered.drop limit := by
    rcases List.mem_append.mp (hleft.subset hr) with hr | hr
    · rw [(List.mem_filter.mp hr).2] at hstuck
      cases hstuck
    · exact hr
  have hlength : (ordered.take limit).length = limit := by
    refine List.length_take_of_le ?_
    by_contra hlt
    rw [List.drop_eq_nil_of_le (by omega)] at hdrop
    cases hdrop
  have hfront : ∀ q ∈ ordered.take limit, key q ≤ key r := by
    rw [← List.take_append_drop limit ordered,List.pairwise_append] at hsorted
    exact fun q hq => hsorted.2.2 q hq r hdrop
  have hnone : ((ordered.take limit).filter stuck).countP
      (fun q => !stuck q && decide (key q ≤ key r)) = 0 := by
    refine List.countP_eq_zero.mpr fun q hq => ?_
    rw [(List.mem_filter.mp hq).2]
    simp
  have hhead := waiting_add_blocking stuck hfront
  rw [hlength] at hhead
  have hwaiting : waiting stuck key r queue' =
      (ordered.drop limit).countP fun q => !stuck q && decide (key q ≤ key r) := by
    rw [waiting,hleft.countP_eq,List.countP_append,hnone,Nat.zero_add]
  have hsplit : ∀ p : ρ → Bool, queue.countP p =
      (ordered.take limit).countP p + (ordered.drop limit).countP p := by
    intro p
    rw [← hperm.countP_eq p,← List.countP_append,List.take_append_drop]
  have hwait := hsplit fun q => !stuck q && decide (key q ≤ key r)
  have hblock := hsplit fun q => stuck q && decide (key q ≤ key r)
  unfold waiting blocking at *
  omega

/-- Enough stuck items ahead of `r` keep it from being served. -/
theorem starve (h : Round stuck key limit queue queue') (hr : r ∈ queue)
    (hahead : limit ≤ ahead stuck key r queue) : r ∈ queue' := by
  obtain ⟨ordered,hperm,hsorted,hleft⟩ := h
  rw [hleft.mem_iff,List.mem_append]
  refine .inr ?_
  have hmem : r ∈ ordered.take limit ++ ordered.drop limit := by
    rw [List.take_append_drop]
    exact hperm.mem_iff.mpr hr
  rcases List.mem_append.mp hmem with htake | hdrop
  · exfalso
    obtain ⟨front,rest,hsplit⟩ := List.append_of_mem htake
    have hordered : ordered = front ++ r::(rest ++ ordered.drop limit) := by
      conv_lhs => rw [← List.take_append_drop limit ordered,hsplit]
      simp
    have hbehind : (r::(rest ++ ordered.drop limit)).countP
        (fun q => stuck q && decide (key q < key r)) = 0 := by
      rw [hordered,List.pairwise_append] at hsorted
      refine List.countP_eq_zero.mpr fun q hq => ?_
      have hle : key r ≤ key q := by
        rcases List.mem_cons.mp hq with rfl | hq
        · exact le_refl (key q)
        · exact (List.pairwise_cons.mp hsorted.2.1).1 q hq
      simp [not_lt.mpr hle]
    have hcount : ahead stuck key r queue ≤ front.length := by
      rw [ahead,← hperm.countP_eq,hordered,List.countP_append,hbehind,Nat.add_zero]
      exact List.countP_le_length
    have hlength : (front ++ r::rest).length ≤ limit := by
      rw [← hsplit,List.length_take]
      exact Nat.min_le_left _ _
    rw [List.length_append,List.length_cons] at hlength
    omega
  · exact hdrop

end Round

namespace Rounds

theorem mem_of_mem (h : Rounds stuck key limit k queue queue') (hr : r ∈ queue') : r ∈ queue := by
  induction h with
  | zero => exact hr
  | succ _ hround ih => exact ih (hround.mem_of_mem hr)

theorem countP_stuck (h : Rounds stuck key limit k queue queue') {p : ρ → Bool}
    (hp : ∀ q, p q = true → stuck q = true) : queue'.countP p = queue.countP p := by
  induction h with
  | zero => rfl
  | succ _ hround ih => rw [hround.countP_stuck hp,ih]

/-- With fewer than `limit` stuck items in its way an item is served after so many rounds. -/
theorem served (h : Rounds stuck key limit k queue queue') (hstuck : stuck r = false)
    (hrounds : waiting stuck key r queue ≤ k * (limit - blocking stuck key r queue))
    (hlimit : blocking stuck key r queue < limit) : r ∉ queue' := by
  have hprogress : r ∈ queue' → waiting stuck key r queue' + k * limit ≤
      waiting stuck key r queue + k * blocking stuck key r queue := by
    clear hrounds
    induction h with
    | zero => simp
    | @succ k queue queue' queue'' hrounds hround ih =>
      intro hr
      have hold := ih hlimit (hround.mem_of_mem hr)
      have hnew := hround.progress hstuck hr
      have hblocking : blocking stuck key r queue' = blocking stuck key r queue :=
        hrounds.countP_stuck fun q hq => (Bool.and_eq_true _ _ ▸ hq).1
      rw [hblocking] at hnew
      rw [Nat.add_mul,Nat.add_mul,Nat.one_mul,Nat.one_mul]
      omega
  intro hr
  have hpos : 0 < waiting stuck key r queue' := by
    refine List.countP_pos_iff.mpr ⟨r,hr,?_⟩
    simp [hstuck]
  have hle := hprogress hr
  rw [Nat.mul_sub] at hrounds
  have hmono : k * blocking stuck key r queue ≤ k * limit := Nat.mul_le_mul_left k (Nat.le_of_lt hlimit)
  omega

/-- With `limit` stuck items ahead of it an item is never served. -/
theorem starved (h : Rounds stuck key limit k queue queue') (hr : r ∈ queue)
    (hahead : limit ≤ ahead stuck key r queue) : r ∈ queue' := by
  induction h with
  | zero => exact hr
  | @succ k queue queue' queue'' hrounds hround ih =>
    refine hround.starve (ih hr hahead) ?_
    rwa [show ahead stuck key r queue' = ahead stuck key r queue from
      hrounds.countP_stuck fun q hq => (Bool.and_eq_true _ _ ▸ hq).1]

end Rounds

end SystemsLab
