import Mathlib.Tactic.FieldSimp
import Mathlib.Tactic.Positivity
import SystemsLab.Framework.Double

/-!
# Nonnegative doubles with infinity and NaN

The doubles around a number are the multiples of a power of two that grows with the number, down
to the spacing of the subnormal numbers. Products are rounded to the nearest of them, an even one
if two are equally near, and overflow to infinity. Signs are left out: nothing here is negative.
-/

namespace SystemsLab

theorem floor_le_roundHalfEven (q : ℚ) : ⌊q⌋ ≤ roundHalfEven q := by
  unfold roundHalfEven
  dsimp only
  split_ifs <;> omega

theorem roundHalfEven_le_floor (q : ℚ) : roundHalfEven q ≤ ⌊q⌋ + 1 := by
  unfold roundHalfEven
  dsimp only
  split_ifs <;> omega

theorem roundHalfEven_mono {p q : ℚ} (h : p ≤ q) : roundHalfEven p ≤ roundHalfEven q := by
  have hfloor := Int.floor_mono h
  by_cases hlt : ⌊p⌋ < ⌊q⌋
  · have hp := roundHalfEven_le_floor p
    have hq := floor_le_roundHalfEven q
    omega
  · have heq : ⌊p⌋ = ⌊q⌋ := by omega
    have hrest : p - ⌊q⌋ ≤ q - ⌊q⌋ := sub_le_sub_right h _
    unfold roundHalfEven
    dsimp only
    rw [heq]
    split_ifs <;> first | omega | linarith

/-- The doubles around `q` are `2 ^ grid q` apart. -/
def grid (q : ℚ) : ℤ := max (Int.log 2 q - 52) (-1074)

def nearest (q : ℚ) : ℚ := roundHalfEven (q / 2 ^ grid q) * 2 ^ grid q

def OnGrid (q : ℚ) : Prop := ∃ m : ℤ, q = m * 2 ^ grid q

theorem lt_zpow_grid (q : ℚ) : q < 2 ^ (grid q + 53) := by
  have hlt : q < ((2 : ℕ) : ℚ) ^ (Int.log 2 q + 1) := Int.lt_zpow_succ_log_self (by decide) q
  apply hlt.trans_le
  apply zpow_le_zpow_right₀
  · norm_num
  · have := le_max_left (Int.log 2 q - 52) (-1074)
    unfold grid
    omega

theorem grid_mono {p q : ℚ} (hp : 0 < p) (h : p ≤ q) : grid p ≤ grid q := by
  have := Int.log_mono_right (b := 2) hp h
  unfold grid
  omega

theorem nearest_of_onGrid {q : ℚ} (h : OnGrid q) : nearest q = q := by
  obtain ⟨m,hm⟩ := h
  have hunit : (2 : ℚ) ^ grid q ≠ 0 := zpow_ne_zero _ two_ne_zero
  unfold nearest
  rw [(div_eq_iff hunit).mpr hm,roundHalfEven_intCast]
  exact hm.symm

theorem onGrid_zero : OnGrid 0 := ⟨0,by simp⟩

theorem nearest_zero : nearest 0 = 0 := nearest_of_onGrid onGrid_zero

theorem onGrid_of_le {q : ℚ} {m e : ℤ} (hq : q = m * 2 ^ e) (he : grid q ≤ e) : OnGrid q := by
  obtain ⟨k,hk⟩ := Int.eq_ofNat_of_zero_le (sub_nonneg.mpr he)
  refine ⟨m * 2 ^ k,?_⟩
  have hsum : e = grid q + k := by omega
  push_cast
  rw [mul_assoc,← zpow_natCast,← zpow_add₀ two_ne_zero,add_comm (k : ℤ),← hsum]
  exact hq

theorem roundHalfEven_le_significand (q : ℚ) : roundHalfEven (q / 2 ^ grid q) ≤ 2 ^ 53 := by
  have hunit : (0 : ℚ) < 2 ^ grid q := zpow_pos two_pos _
  have hle : q / 2 ^ grid q ≤ ((2 ^ 53 : ℤ) : ℚ) := by
    rw [div_le_iff₀ hunit]
    have hlt := (lt_zpow_grid q).le
    rw [zpow_add₀ two_ne_zero,mul_comm] at hlt
    exact_mod_cast hlt
  have hround := roundHalfEven_mono hle
  rwa [roundHalfEven_intCast] at hround

theorem nearest_nonneg {q : ℚ} (hq : 0 ≤ q) : 0 ≤ nearest q := by
  have hunit : (0 : ℚ) ≤ 2 ^ grid q := zpow_nonneg zero_le_two _
  have hround := roundHalfEven_mono (div_nonneg hq hunit)
  have hzero : roundHalfEven 0 = 0 := roundHalfEven_intCast 0
  rw [hzero] at hround
  exact mul_nonneg (Int.cast_nonneg hround) hunit

theorem nearest_le_zpow (q : ℚ) : nearest q ≤ 2 ^ (grid q + 53) := by
  have hle : ((roundHalfEven (q / 2 ^ grid q) : ℤ) : ℚ) ≤ ((2 ^ 53 : ℤ) : ℚ) :=
    Int.cast_le.mpr (roundHalfEven_le_significand q)
  have hunit : (0 : ℚ) ≤ 2 ^ grid q := zpow_nonneg zero_le_two _
  calc nearest q ≤ ((2 ^ 53 : ℤ) : ℚ) * 2 ^ grid q := mul_le_mul_of_nonneg_right hle hunit
    _ = 2 ^ (grid q + 53) := by
      rw [zpow_add₀ two_ne_zero,mul_comm]
      norm_cast

theorem grid_le_of_lt {q : ℚ} {e : ℤ} (hq : 0 < q) (hlt : q < 2 ^ (e + 53)) (he : -1074 ≤ e) :
    grid q ≤ e := by
  have hlog : Int.log 2 q < e + 53 :=
    (Int.lt_zpow_iff_log_lt (by decide) hq).mp (by exact_mod_cast hlt)
  unfold grid
  omega

/-- Rounding ends on the grid, also where the result is the first number of a wider one. -/
theorem onGrid_nearest {q : ℚ} (hq : 0 ≤ q) : OnGrid (nearest q) := by
  rcases (nearest_nonneg hq).eq_or_lt with hzero | hpos
  · rw [← hzero]
    exact onGrid_zero
  have hbottom : -1074 ≤ grid q := le_max_right _ _
  rcases (nearest_le_zpow q).eq_or_lt with hnext | hlt
  · have hgrid : grid (nearest q) ≤ grid q + 1 := by
      apply grid_le_of_lt hpos
      · rw [hnext]
        apply zpow_lt_zpow_right₀
        · norm_num
        · omega
      · omega
    apply onGrid_of_le (m := 2 ^ 52) (e := grid q + 1) _ hgrid
    rw [hnext,show grid q + 53 = 52 + (grid q + 1) by omega,zpow_add₀ two_ne_zero]
    norm_cast
  · exact onGrid_of_le rfl (grid_le_of_lt hpos hlt hbottom)

theorem nearest_mono {p q : ℚ} (hp : 0 ≤ p) (h : p ≤ q) : nearest p ≤ nearest q := by
  rcases hp.eq_or_lt with rfl | hpos
  · rw [nearest_zero]
    exact nearest_nonneg h
  have hqpos : 0 < q := hpos.trans_le h
  have hunit : (0 : ℚ) < 2 ^ grid q := zpow_pos two_pos _
  rcases (grid_mono hpos h).eq_or_lt with heq | hlt
  · have hdiv : p / 2 ^ grid q ≤ q / 2 ^ grid q := div_le_div_of_nonneg_right h hunit.le
    unfold nearest
    rw [heq]
    exact mul_le_mul_of_nonneg_right (Int.cast_le.mpr (roundHalfEven_mono hdiv)) hunit.le
  -- between the two grids there is a power of two
  · have hbottom : -1074 ≤ grid p := le_max_right _ _
    have hlog : Int.log 2 q = grid q + 52 := by
      unfold grid at hlt hbottom ⊢
      omega
    have hge : (2 : ℚ) ^ (grid q + 52) ≤ q := by
      have hself := Int.zpow_log_le_self (b := 2) (r := q) (by decide) hqpos
      rw [hlog] at hself
      exact_mod_cast hself
    have hsignificand : ((2 ^ 52 : ℤ) : ℚ) ≤ q / 2 ^ grid q := by
      rw [le_div_iff₀ hunit]
      rw [zpow_add₀ two_ne_zero,mul_comm] at hge
      exact_mod_cast hge
    have hround := roundHalfEven_mono hsignificand
    rw [roundHalfEven_intCast] at hround
    calc nearest p ≤ 2 ^ (grid p + 53) := nearest_le_zpow p
      _ ≤ 2 ^ (52 + grid q) := zpow_le_zpow_right₀ (by norm_num) (by omega)
      _ = ((2 ^ 52 : ℤ) : ℚ) * 2 ^ grid q := by
        rw [zpow_add₀ two_ne_zero]
        norm_cast
      _ ≤ nearest q := mul_le_mul_of_nonneg_right (Int.cast_le.mpr hround) hunit.le

/-- Doubling moves a number along with its grid, except that the subnormal grid is wider. -/
theorem OnGrid.mul_two_pow {q : ℚ} (h : OnGrid q) (hq : 0 ≤ q) (n : ℕ) : OnGrid (q * 2 ^ n) := by
  rcases hq.eq_or_lt with rfl | hpos
  · rw [zero_mul]
    exact onGrid_zero
  obtain ⟨m,hm⟩ := h
  have hbottom : -1074 ≤ grid q := le_max_right _ _
  apply onGrid_of_le (m := m) (e := grid q + n)
  · rw [zpow_add₀ two_ne_zero,zpow_natCast,← mul_assoc,← hm]
  · apply grid_le_of_lt
    · positivity
    · rw [add_right_comm,zpow_add₀ two_ne_zero,zpow_natCast]
      exact mul_lt_mul_of_pos_right (lt_zpow_grid q) (by positivity)
    · omega

structure NonnegDouble where
  value : ℚ
  nonneg : 0 ≤ value
  onGrid : OnGrid value
  lt : value < 2 ^ 1024

/-- Integers of at most 53 bits. -/
def NonnegDouble.ofNat (n : ℕ) (h : n < 2 ^ 53) : NonnegDouble where
  value := n
  nonneg := n.cast_nonneg
  onGrid := by
    rcases Nat.eq_zero_or_pos n with rfl | hpos
    · exact_mod_cast onGrid_zero
    · apply onGrid_of_le (m := n) (e := 0)
      · simp
      · apply grid_le_of_lt
        · exact_mod_cast hpos
        · exact_mod_cast h
        · decide
  lt := by
    have hlt : (n : ℚ) < 2 ^ 53 := by exact_mod_cast h
    exact hlt.trans_le (pow_le_pow_right₀ (by norm_num) (by decide))

/-- The largest double below one. -/
def belowOne : ℚ := 1 - 2 ^ (-53 : ℤ)

theorem NonnegDouble.le_belowOne {x : NonnegDouble} (h : x.value < 1) : x.value ≤ belowOne := by
  by_cases hhalf : x.value < 1/2
  · apply hhalf.le.trans
    norm_num [belowOne]
  · have hpos : 0 < x.value := by linarith
    have hlog : -1 ≤ Int.log 2 x.value :=
      (Int.zpow_le_iff_le_log (by decide) hpos).mp (by norm_num; linarith)
    have hgrid : grid x.value ≤ -53 := grid_le_of_lt hpos (by norm_num; exact h) (by decide)
    have hexact : grid x.value = -53 := by
      unfold grid at hgrid ⊢
      omega
    obtain ⟨m,hm⟩ := x.onGrid
    rw [hexact] at hm
    have hlt : (m : ℚ) < ((2 ^ 53 : ℤ) : ℚ) := by
      rw [hm] at h
      norm_num at h ⊢
      linarith
    have hle : (m : ℚ) ≤ ((2 ^ 53 - 1 : ℤ) : ℚ) := Int.cast_le.mpr (Int.le_sub_one_of_lt
      (Int.cast_lt.mp hlt))
    rw [hm]
    unfold belowOne
    norm_num at hle ⊢
    linarith

/-- The largest random number. -/
def NonnegDouble.belowOne : NonnegDouble where
  value := SystemsLab.belowOne
  nonneg := by norm_num [SystemsLab.belowOne]
  onGrid := by
    apply onGrid_of_le (m := 2 ^ 53 - 1) (e := -53)
    · norm_num [SystemsLab.belowOne]
    · apply grid_le_of_lt <;> norm_num [SystemsLab.belowOne]
  lt := by
    have hone : SystemsLab.belowOne < 1 := by norm_num [SystemsLab.belowOne]
    exact hone.trans_le (one_le_pow₀ (by norm_num))

inductive Number
  | nan
  | infinity
  | finite (x : NonnegDouble)

/-- A number that is at least zero, which NaN is not. -/
inductive NonnegNumber
  | infinity
  | finite (x : NonnegDouble)

namespace NonnegNumber

def toNumber : NonnegNumber → Number
  | .infinity => .infinity
  | .finite x => .finite x

/-- The number times `2 ^ n`, without rounding and overflow. -/
def scaled (n : ℕ) : NonnegNumber → WithTop ℚ
  | .infinity => ⊤
  | .finite x => ((x.value * 2 ^ n : ℚ) : WithTop ℚ)

end NonnegNumber

namespace Number

/-- A number from zero to a bound. -/
def Within (bound : WithTop ℚ) : Number → Prop
  | .nan => False
  | .infinity => bound = ⊤
  | .finite x => 0 ≤ x.value ∧ (x.value : WithTop ℚ) ≤ bound

/-- The number a result stands for: rounded, and infinite if that is too large. -/
def round (q : ℚ) (hq : 0 ≤ q) : Number :=
  if h : nearest q < 2 ^ 1024 then .finite ⟨nearest q,nearest_nonneg hq,onGrid_nearest hq,h⟩
  else .infinity

/-- `a * b`. Zero times infinity is not a number. -/
def mul : Number → Number → Number
  | .finite a, .finite b => round (a.value * b.value) (mul_nonneg a.nonneg b.nonneg)
  | .finite a, .infinity => if a.value = 0 then .nan else .infinity
  | .infinity, .finite b => if b.value = 0 then .nan else .infinity
  | .infinity, .infinity => .infinity
  | _, _ => .nan

/-- `Math.min(a, b)`. -/
def min : Number → Number → Number
  | .nan, _ => .nan
  | _, .nan => .nan
  | .infinity, b => b
  | a, .infinity => a
  | .finite a, .finite b => if b.value < a.value then .finite b else .finite a

/-- `2 ** n`. -/
def twoPow (n : ℕ) : Number := round (2 ^ n) (by positivity)

theorem round_finite {q : ℚ} (hq : 0 ≤ q) (h : nearest q < 2 ^ 1024) :
    ∃ x, round q hq = .finite x ∧ x.value = nearest q := by
  unfold round
  rw [dif_pos h]
  exact ⟨_,rfl,rfl⟩

theorem round_infinity {q : ℚ} (hq : 0 ≤ q) (h : 2 ^ 1024 ≤ nearest q) :
    round q hq = .infinity := by
  unfold round
  rw [dif_neg h.not_gt]

theorem onGrid_two_pow (n : ℕ) : OnGrid (2 ^ n) := by
  have hone : OnGrid 1 := by
    apply onGrid_of_le (m := 1) (e := 0)
    · norm_num
    · apply grid_le_of_lt <;> norm_num
  simpa using hone.mul_two_pow zero_le_one n

theorem twoPow_finite {n : ℕ} (h : n < 1024) : ∃ x, twoPow n = .finite x ∧ x.value = 2 ^ n := by
  have hexact := nearest_of_onGrid (onGrid_two_pow n)
  rw [← hexact]
  apply round_finite
  rw [hexact]
  exact pow_lt_pow_right₀ (by norm_num) h

theorem twoPow_infinity {n : ℕ} (h : 1024 ≤ n) : twoPow n = .infinity := by
  apply round_infinity
  rw [nearest_of_onGrid (onGrid_two_pow n)]
  exact pow_le_pow_right₀ (by norm_num) h

theorem mul_twoPow_finite (a : NonnegDouble) {n : ℕ} (h : n < 1024)
    (hlt : a.value * 2 ^ n < 2 ^ 1024) :
    ∃ x, mul (.finite a) (twoPow n) = .finite x ∧ x.value = a.value * 2 ^ n := by
  obtain ⟨y,hy,hvalue⟩ := twoPow_finite h
  have hexact := nearest_of_onGrid (a.onGrid.mul_two_pow a.nonneg n)
  rw [hy]
  simp only [mul,hvalue]
  obtain ⟨z,hz,hzvalue⟩ := round_finite (mul_nonneg a.nonneg (by positivity)) (hexact.symm ▸ hlt)
  exact ⟨z,hz,hzvalue.trans hexact⟩

theorem mul_twoPow_infinity (a : NonnegDouble) {n : ℕ} (h : n < 1024)
    (hge : 2 ^ 1024 ≤ a.value * 2 ^ n) : mul (.finite a) (twoPow n) = .infinity := by
  obtain ⟨y,hy,hvalue⟩ := twoPow_finite h
  have hexact := nearest_of_onGrid (a.onGrid.mul_two_pow a.nonneg n)
  rw [hy]
  simp only [mul,hvalue]
  exact round_infinity (mul_nonneg a.nonneg (by positivity)) (hexact.symm ▸ hge)

theorem mul_twoPow_overflow (a : NonnegDouble) {n : ℕ} (h : 1024 ≤ n) :
    mul (.finite a) (twoPow n) = if a.value = 0 then .nan else .infinity := by
  rw [twoPow_infinity h]
  rfl

theorem infinity_mul_twoPow (n : ℕ) : mul .infinity (twoPow n) = .infinity := by
  by_cases h : n < 1024
  · obtain ⟨y,hy,hvalue⟩ := twoPow_finite h
    have hne : y.value ≠ 0 := by
      rw [hvalue]
      positivity
    rw [hy]
    exact if_neg hne
  · rw [twoPow_infinity (not_lt.mp h)]
    rfl

theorem min_mul_twoPow (a b : NonnegDouble) {n : ℕ} (h : n < 1024) :
    ∃ x, min (.finite b) (mul (.finite a) (twoPow n)) = .finite x ∧
      x.value = Min.min b.value (a.value * 2 ^ n) := by
  by_cases hlt : a.value * 2 ^ n < 2 ^ 1024
  · obtain ⟨z,hz,hvalue⟩ := mul_twoPow_finite a h hlt
    rw [hz]
    by_cases hle : z.value < b.value
    · refine ⟨z,by simp [min,hle],?_⟩
      rw [← hvalue,min_eq_right hle.le]
    · refine ⟨b,by simp [min,hle],?_⟩
      rw [← hvalue,min_eq_left (not_lt.mp hle)]
  · have hge := not_lt.mp hlt
    rw [mul_twoPow_infinity a h hge]
    exact ⟨b,rfl,(min_eq_left (b.lt.le.trans hge)).symm⟩

theorem mul_le {a b : NonnegDouble} (ha : a.value ≤ 1) :
    ∃ x, mul (.finite a) (.finite b) = .finite x ∧
      x.value = nearest (a.value * b.value) ∧ x.value ≤ b.value := by
  have hle : a.value * b.value ≤ b.value := mul_le_of_le_one_left b.nonneg ha
  have hround := nearest_mono (mul_nonneg a.nonneg b.nonneg) hle
  rw [nearest_of_onGrid b.onGrid] at hround
  obtain ⟨x,hx,hvalue⟩ := round_finite (mul_nonneg a.nonneg b.nonneg) (hround.trans_lt b.lt)
  exact ⟨x,hx,hvalue,hvalue ▸ hround⟩

end Number

end SystemsLab
