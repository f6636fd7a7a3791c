import Mathlib.Algebra.Order.Floor.Ring
import Mathlib.Data.Rat.Floor
import Mathlib.Tactic.Linarith
import Mathlib.Tactic.NormNum
import SystemsLab.Framework.OrderStatistic

/-!
# Latency percentiles

`percentile` reads the nearest rank off a sorted copy. `computeLatencyStats` rounds three of them,
the minimum and the maximum to two digits. The numbers are exact.
-/

namespace SystemsLab.Observability

def percentile (values : List ℚ) (p : ℚ) : ℚ :=
  if values.length = 0 then 0
  else
    let sorted := sortAscending values
    let rank := ⌈p / 100 * sorted.length⌉ - 1
    let clamped := min (max rank 0) (sorted.length - 1)
    sorted.getD clamped.toNat 0

/-- A nonnegative number rounded to two digits, upwards if two results are equally near. From
`10 ** 21` on `toFixed` prints all digits. -/
def fixedMagnitude (x : ℚ) : ℚ :=
  if 10 ^ 21 ≤ x then x else ⌊x * 100 + 1/2⌋ / 100

/-- `Number(x.toFixed(2))`. -/
def toFixed (x : ℚ) : ℚ :=
  if x < 0 then -fixedMagnitude (-x) else fixedMagnitude x

structure LatencyStats where
  count : ℕ
  p50 : ℚ
  p95 : ℚ
  p99 : ℚ
  min : ℚ
  max : ℚ
  deriving DecidableEq

def computeLatencyStats (durationsMs : List ℚ) : LatencyStats :=
  if durationsMs.length = 0 then { count := 0, p50 := 0, p95 := 0, p99 := 0, min := 0, max := 0 }
  else
    { count := durationsMs.length
      p50 := toFixed (percentile durationsMs 50)
      p95 := toFixed (percentile durationsMs 95)
      p99 := toFixed (percentile durationsMs 99)
      min := toFixed (durationsMs.min?.getD 0)
      max := toFixed (durationsMs.max?.getD 0) }

/-- The index that is read, which is always one of the list. -/
def rankIndex (n : ℕ) (p : ℚ) : ℕ := (min (max (⌈p / 100 * n⌉ - 1) 0) (n - 1)).toNat

private theorem rankIndex_lt {n : ℕ} (hn : 0 < n) (p : ℚ) : rankIndex n p < n := by
  unfold rankIndex
  omega

theorem rankIndex_mono (n : ℕ) {p q : ℚ} (h : p ≤ q) : rankIndex n p ≤ rankIndex n q := by
  have hceil : ⌈p / 100 * n⌉ ≤ ⌈q / 100 * n⌉ := by
    apply Int.ceil_mono
    apply mul_le_mul_of_nonneg_right _ n.cast_nonneg
    linarith
  unfold rankIndex
  omega

private theorem rankIndex_eq {n : ℕ} (hn : 0 < n) {p : ℚ} (hp : 0 < p) (hle : p ≤ 100) :
    (rankIndex n p : ℤ) + 1 = ⌈p / 100 * n⌉ := by
  have hcast : (0 : ℚ) < n := Nat.cast_pos.mpr hn
  have hpos : 0 < ⌈p / 100 * n⌉ := Int.ceil_pos.mpr (by positivity)
  have htop : ⌈p / 100 * n⌉ ≤ n := by
    apply Int.ceil_le.mpr
    have hfraction : p / 100 ≤ 1 := by linarith
    exact_mod_cast mul_le_of_le_one_left hcast.le hfraction
  unfold rankIndex
  omega

private theorem percentile_eq {values : List ℚ} (h : values ≠ []) (p : ℚ)
    (hk : rankIndex values.length p < (sortAscending values).length) :
    percentile values p = (sortAscending values)[rankIndex values.length p] := by
  have hlength : values.length ≠ 0 := fun hzero => h (List.length_eq_zero_iff.mp hzero)
  unfold percentile
  rw [if_neg hlength]
  simp only [sortAscending_length]
  rw [List.getD_eq_getElem?_getD]
  exact congrArg (Option.getD · 0) (List.getElem?_eq_getElem hk)

private theorem rankIndex_lt_sorted {values : List ℚ} (h : values ≠ []) (p : ℚ) :
    rankIndex values.length p < (sortAscending values).length := by
  rw [sortAscending_length]
  exact rankIndex_lt (List.length_pos_iff.mpr h) p

private theorem percentile_mem {values : List ℚ} (h : values ≠ []) (p : ℚ) :
    percentile values p ∈ values := by
  have hk := rankIndex_lt_sorted h p
  rw [percentile_eq h p hk]
  exact mem_sortAscending.mp (List.getElem_mem hk)

/-- At least `p` percent of the entries are at most `v`. -/
def Covers (values : List ℚ) (p v : ℚ) : Prop :=
  p / 100 * values.length ≤ rankOf values v

private theorem percentile_isLeast {values : List ℚ} (h : values ≠ []) {p : ℚ} (hp : 0 < p)
    (hle : p ≤ 100) : IsLeast {v | v ∈ values ∧ Covers values p v} (percentile values p) := by
  have hk := rankIndex_lt_sorted h p
  have hceil := rankIndex_eq (List.length_pos_iff.mpr h) hp hle
  have hcovers : ∀ v, Covers values p v ↔ rankIndex values.length p + 1 ≤ rankOf values v := by
    intro v
    have hcast : Covers values p v ↔ ⌈p / 100 * values.length⌉ ≤ (rankOf values v : ℤ) := by
      rw [Int.ceil_le]
      exact Iff.rfl
    rw [hcast,← hceil]
    omega
  simp only [hcovers]
  rw [percentile_eq h p hk]
  exact orderStatistic_isLeast hk

private theorem percentile_perm {values values' : List ℚ} (h : values.Perm values') (p : ℚ) :
    percentile values' p = percentile values p := by
  unfold percentile
  rw [h.length_eq,sortAscending_congr h]

theorem percentile_mono (values : List ℚ) {p q : ℚ} (h : p ≤ q) :
    percentile values p ≤ percentile values q := by
  by_cases hnil : values = []
  · subst hnil
    exact le_rfl
  · rw [percentile_eq hnil p (rankIndex_lt_sorted hnil p),
      percentile_eq hnil q (rankIndex_lt_sorted hnil q)]
    exact getElem_le_getElem (sortAscending_sorted values) (rankIndex_mono _ h) _

private theorem fixedMagnitude_nonneg {x : ℚ} (hx : 0 ≤ x) : 0 ≤ fixedMagnitude x := by
  unfold fixedMagnitude
  split
  · exact hx
  · have hfloor : (0 : ℤ) ≤ ⌊x * 100 + 1/2⌋ := Int.floor_nonneg.mpr (by linarith)
    have hcast : (0 : ℚ) ≤ ⌊x * 100 + 1/2⌋ := by exact_mod_cast hfloor
    linarith

theorem fixedMagnitude_mono {x y : ℚ} (h : x ≤ y) : fixedMagnitude x ≤ fixedMagnitude y := by
  unfold fixedMagnitude
  split
  · rename_i hx
    rw [if_pos (hx.trans h)]
    exact h
  · rename_i hx
    split
    -- a number below the bound is rounded to the bound at most
    · rename_i hy
      have hfloor : ⌊x * 100 + 1/2⌋ < (10 ^ 23 + 1 : ℤ) := by
        apply Int.floor_lt.mpr
        push_cast
        linarith [not_le.mp hx]
      have hcast : (⌊x * 100 + 1/2⌋ : ℚ) ≤ 10 ^ 23 := by exact_mod_cast Int.lt_add_one_iff.mp hfloor
      linarith
    · have hfloor : ⌊x * 100 + 1/2⌋ ≤ ⌊y * 100 + 1/2⌋ := Int.floor_mono (by linarith)
      have hcast : (⌊x * 100 + 1/2⌋ : ℚ) ≤ ⌊y * 100 + 1/2⌋ := by exact_mod_cast hfloor
      linarith

theorem toFixed_mono {x y : ℚ} (h : x ≤ y) : toFixed x ≤ toFixed y := by
  unfold toFixed
  split <;> split
  · exact neg_le_neg (fixedMagnitude_mono (neg_le_neg h))
  · have hx := fixedMagnitude_nonneg (x := -x) (by linarith)
    have hy := fixedMagnitude_nonneg (x := y) (by linarith)
    linarith
  · linarith
  · exact fixedMagnitude_mono h

private theorem min_le_of_mem {values : List ℚ} {v : ℚ} (hv : v ∈ values) :
    values.min?.getD 0 ≤ v := by
  cases hmin : values.min? with
  | none => simp [List.min?_eq_none_iff.mp hmin] at hv
  | some m => exact (List.min?_eq_some_iff.mp hmin).2 v hv

private theorem le_max_of_mem {values : List ℚ} {v : ℚ} (hv : v ∈ values) :
    v ≤ values.max?.getD 0 := by
  cases hmax : values.max? with
  | none => simp [List.max?_eq_none_iff.mp hmax] at hv
  | some m => exact (List.max?_eq_some_iff.mp hmax).2 v hv

structure LatencyStats.Ordered (stats : LatencyStats) : Prop where
  min_p50 : stats.min ≤ stats.p50
  p50_p95 : stats.p50 ≤ stats.p95
  p95_p99 : stats.p95 ≤ stats.p99
  p99_max : stats.p99 ≤ stats.max

private theorem computeLatencyStats_ordered (durationsMs : List ℚ) :
    (computeLatencyStats durationsMs).Ordered := by
  unfold computeLatencyStats
  split
  · constructor <;> exact le_rfl
  · rename_i hlength
    have hne : durationsMs ≠ [] := fun hnil => hlength (List.length_eq_zero_iff.mpr hnil)
    constructor
    · exact toFixed_mono (min_le_of_mem (percentile_mem hne 50))
    · exact toFixed_mono (percentile_mono durationsMs (by norm_num))
    · exact toFixed_mono (percentile_mono durationsMs (by norm_num))
    · exact toFixed_mono (le_max_of_mem (percentile_mem hne 99))

/-- A percentile is the least entry that covers its share, whatever the order of the entries, and
grows with `p`. The statistics are in order. -/
theorem percentile_spec {values : List ℚ} (h : values ≠ []) {p : ℚ} (hp : 0 < p)
    (hle : p ≤ 100) : IsLeast {v | v ∈ values ∧ Covers values p v} (percentile values p) ∧
      (∀ values', values.Perm values' → percentile values' p = percentile values p) ∧
      (∀ q, p ≤ q → percentile values p ≤ percentile values q) ∧
      ∀ durationsMs, (computeLatencyStats durationsMs).Ordered :=
  ⟨percentile_isLeast h hp hle,fun _ hperm => percentile_perm hperm p,
    fun _ hq => percentile_mono values hq,computeLatencyStats_ordered⟩

theorem percentile_repeated :
    IsLeast {v | v ∈ [3,1,3,2] ∧ Covers [3,1,3,2] 75 v} (percentile [3,1,3,2] 75) :=
  (percentile_spec (by decide) (by norm_num) (by norm_num)).1

end SystemsLab.Observability
