import Mathlib.Order.Lattice.Nat
import SystemsLab.Framework.NonnegDouble

/-!
# Retries with backoff and jitter

`retryWithBackoff` calls `fn` up to the first success, the first error that is not retryable, or
the last attempt, and sleeps between two attempts for a random fraction of a cap. The cap doubles
with every attempt and is bounded by `maxDelayMs`. From the 1025th sleep on, `2 ** (attempt - 1)`
overflows.
-/

namespace SystemsLab.Resilience

/-- How one call of `fn` ends. Beyond its end a finite script leaves the call pending. -/
inductive Settlement (α ε : Type*)
  | resolved (value : α)
  | rejected (error : ε)
  | pending

/-- `onRetry` says whether the callback is given; it is only told what happens. -/
structure RetryOptions (ε : Type*) where
  maxAttempts : ℕ
  baseDelayMs : NonnegNumber
  maxDelayMs : NonnegNumber
  isRetryable : ε → Bool
  onRetry : Bool

/-- A source of random numbers from zero to one, one excluded. -/
structure RandomSource where
  draw : ℕ → NonnegDouble
  lt_one : ∀ n, (draw n).value < 1

inductive RetryEffect (ε : Type*)
  | call (attempt : ℕ)
  | onRetry (attempt : ℕ) (delayMs : Number) (error : ε)
  | sleep (delayMs : Number)

/-- `none` is the undefined `lastError` of a loop that has not made any attempt. -/
inductive RetryResult (α ε : Type*)
  | returned (value : α)
  | threw (lastError : Option ε)
  | pending

def Settlement.result {α ε : Type*} : Settlement α ε → RetryResult α ε
  | .resolved value => .returned value
  | .rejected error => .threw (some error)
  | .pending => .pending

namespace RetryOptions

variable {α ε : Type*} (opts : RetryOptions ε)

def exponentialCap (attempt : ℕ) : Number :=
  Number.min opts.maxDelayMs.toNumber
    (Number.mul opts.baseDelayMs.toNumber (Number.twoPow (attempt - 1)))

def delayMs (random : NonnegDouble) (attempt : ℕ) : Number :=
  Number.mul (.finite random) (opts.exponentialCap attempt)

/-- What happens between a failed attempt and the next one. -/
def retried (attempt : ℕ) (delayMs : Number) (error : ε) : List (RetryEffect ε) :=
  (if opts.onRetry then [.onRetry attempt delayMs error] else []) ++ [.sleep delayMs]

/-- The loop from `attempt` on. `draws` counts the random numbers drawn so far. -/
def retryLoop (fn : ℕ → Settlement α ε) (random : ℕ → NonnegDouble) (attempt draws : ℕ)
    (lastError : Option ε) : List (RetryEffect ε) × RetryResult α ε :=
  if attempt ≤ opts.maxAttempts then
    match fn attempt with
    | .resolved value => ([.call attempt],.returned value)
    | .pending => ([.call attempt],.pending)
    | .rejected err =>
      let attemptsRemain := decide (attempt < opts.maxAttempts)
      if !opts.isRetryable err || !attemptsRemain then ([.call attempt],.threw (some err))
      else
        let delayMs := opts.delayMs (random draws) attempt
        let rest := retryLoop fn random (attempt + 1) (draws + 1) (some err)
        (.call attempt::opts.retried attempt delayMs err ++ rest.1,rest.2)
  else ([],.threw lastError)
termination_by opts.maxAttempts + 1 - attempt

/-- What `retryWithBackoff` does, in order, and how it ends. -/
def retryWithBackoff (fn : ℕ → Settlement α ε) (random : ℕ → NonnegDouble) :
    List (RetryEffect ε) × RetryResult α ε :=
  opts.retryLoop fn random 1 0 none

def retries : Settlement α ε → Bool
  | .rejected err => opts.isRetryable err
  | _ => false

/-- The attempts after which there is no other one, whatever has come before. -/
def stops (fn : ℕ → Settlement α ε) : Set ℕ :=
  {i | 1 ≤ i ∧ (opts.retries (fn i) = false ∨ i = opts.maxAttempts)}

/-- Attempt `n + 1` and what follows it before the next one. -/
def attemptAndSleep (fn : ℕ → Settlement α ε) (random : ℕ → NonnegDouble) (n : ℕ) :
    List (RetryEffect ε) :=
  match fn (n + 1) with
  | .rejected err => .call (n + 1)::opts.retried (n + 1) (opts.delayMs (random n) (n + 1)) err
  | _ => [.call (n + 1)]

/-- The attempts are `1` to `k`, with a sleep after each but the last, whose outcome is the
result. -/
def Follows (fn : ℕ → Settlement α ε) (random : RandomSource) (k : ℕ) : Prop :=
  opts.retryWithBackoff fn random.draw =
    ((List.range (k - 1)).flatMap (opts.attemptAndSleep fn random.draw) ++ [.call k],(fn k).result)

/-- The delays of the sleeps between `k` attempts are numbers from zero to the cap. -/
def Bounded (random : RandomSource) (k : ℕ) : Prop :=
  ∀ n, n + 1 < k → (opts.delayMs (random.draw n) (n + 1)).Within
    (min (opts.maxDelayMs.scaled 0) (opts.baseDelayMs.scaled n))

variable {opts} {fn : ℕ → Settlement α ε} {random : ℕ → NonnegDouble}

private theorem exists_lastAttempt (h : 1 ≤ opts.maxAttempts) : ∃ k, IsLeast (opts.stops fn) k := by
  have hmem : opts.maxAttempts ∈ opts.stops fn := ⟨h,.inr rfl⟩
  exact ⟨sInf (opts.stops fn),Nat.sInf_mem ⟨_,hmem⟩,fun i hi => Nat.sInf_le hi⟩

private theorem retries_of_lt (h : 1 ≤ opts.maxAttempts) {k i : ℕ} (hk : IsLeast (opts.stops fn) k)
    (hpos : 1 ≤ i) (hi : i < k) :
    ∃ err, fn i = .rejected err ∧ opts.isRetryable err = true ∧ i < opts.maxAttempts := by
  have hle : k ≤ opts.maxAttempts := hk.2 ⟨h,.inr rfl⟩
  have hretries : opts.retries (fn i) = true := by
    by_contra hfalse
    have hmem : i ∈ opts.stops fn := ⟨hpos,.inl (by simpa using hfalse)⟩
    exact absurd (hk.2 hmem) (by omega)
  cases hfn : fn i with
  | rejected err =>
    rw [hfn] at hretries
    exact ⟨err,rfl,hretries,by omega⟩
  | resolved value =>
    rw [hfn] at hretries
    cases hretries
  | pending =>
    rw [hfn] at hretries
    cases hretries

private theorem retryLoop_last {k draws : ℕ} {lastError : Option ε} (hle : k ≤ opts.maxAttempts)
    (hstop : opts.retries (fn k) = false ∨ k = opts.maxAttempts) :
    opts.retryLoop fn random k draws lastError = ([.call k],(fn k).result) := by
  unfold retryLoop
  rw [if_pos hle]
  cases hfn : fn k with
  | resolved value => rfl
  | pending => rfl
  | rejected err =>
    have hover : (!opts.isRetryable err || !decide (k < opts.maxAttempts)) = true := by
      rcases hstop with hfalse | rfl
      · rw [hfn] at hfalse
        have hnot : opts.isRetryable err = false := hfalse
        simp [hnot]
      · simp
    simp only [hover,if_true]
    rfl

private theorem retryLoop_eq (h : 1 ≤ opts.maxAttempts) {k : ℕ} (hk : IsLeast (opts.stops fn) k)
    (m n : ℕ) (hsum : n + m + 1 = k) (lastError : Option ε) :
    opts.retryLoop fn random (n + 1) n lastError =
      ((List.range' n m).flatMap (opts.attemptAndSleep fn random) ++ [.call k],(fn k).result) := by
  have hle : k ≤ opts.maxAttempts := hk.2 ⟨h,.inr rfl⟩
  induction m generalizing n lastError with
  | zero =>
    obtain rfl : n + 1 = k := hsum
    exact retryLoop_last hle hk.1.2
  | succ m ih =>
    obtain ⟨err,hfn,hretryable,hlt⟩ := retries_of_lt h hk (Nat.le_add_left 1 n)
      (show n + 1 < k by omega)
    have hrest := ih (n + 1) (by omega) (some err)
    unfold retryLoop
    rw [if_pos hlt.le,hfn]
    simp only [hretryable,hlt,Bool.not_true,decide_true,Bool.or_self,Bool.false_eq_true,
      if_false]
    rw [hrest,List.range'_succ,List.flatMap_cons,List.append_assoc]
    simp [attemptAndSleep,hfn]

private theorem retryWithBackoff_follows (h : 1 ≤ opts.maxAttempts) {k : ℕ}
    (hk : IsLeast (opts.stops fn) k) (random : RandomSource) : opts.Follows fn random k := by
  have hpos : 1 ≤ k := hk.1.1
  unfold Follows retryWithBackoff
  rw [List.range_eq_range']
  exact retryLoop_eq h hk (k - 1) 0 (by omega) none

/-- No delay below `maxDelayMs` is longer than `2 ^ 1024` base delays. -/
def Outgrows (baseDelayMs maxDelayMs : NonnegDouble) : Prop :=
  0 < baseDelayMs.value ∧ nearest (belowOne * maxDelayMs.value) ≤ baseDelayMs.value * 2 ^ 1024

/-- No overflow spoils the delays between `k` attempts. An infinite `maxDelayMs` is no cap, so there
the product itself must not overflow. -/
def Fits (opts : RetryOptions ε) (k : ℕ) : Prop :=
  match opts.baseDelayMs, opts.maxDelayMs with
  | .finite base, .finite limit => k ≤ 1025 ∨ Outgrows base limit
  | .infinity, .finite _ => True
  | .finite base, .infinity => k ≤ 1 ∨ k ≤ 1025 ∧ base.value * 2 ^ (k - 2) < 2 ^ 1024
  | .infinity, .infinity => k ≤ 1

private theorem delayMs_of_finite {r cap : NonnegDouble} {n : ℕ} (hr : r.value < 1)
    (hcap : opts.exponentialCap (n + 1) = .finite cap) :
    ∃ d, opts.delayMs r (n + 1) = .finite d ∧ d.value = nearest (r.value * cap.value) ∧
      d.value ≤ cap.value := by
  unfold delayMs
  rw [hcap]
  exact Number.mul_le hr.le

private theorem within_of_finite {r cap : NonnegDouble} {n : ℕ} {bound : WithTop ℚ}
    (hr : r.value < 1)
    (hcap : opts.exponentialCap (n + 1) = .finite cap) (hbound : (cap.value : WithTop ℚ) ≤ bound) :
    (opts.delayMs r (n + 1)).Within bound := by
  obtain ⟨d,hd,_,hle⟩ := delayMs_of_finite hr hcap
  rw [hd]
  exact ⟨d.nonneg,le_trans (WithTop.coe_le_coe.mpr hle) hbound⟩

def zeroDraws : RandomSource where
  draw _ := .ofNat 0 (by decide)
  lt_one _ := by norm_num [NonnegDouble.ofNat]

/-- Zero times infinity is not a number, and neither is zero times NaN. -/
theorem not_within_zero {n : ℕ} {bound : WithTop ℚ}
    (hcap : ∀ cap, opts.exponentialCap (n + 1) ≠ .finite cap) :
    ¬ (opts.delayMs (zeroDraws.draw n) (n + 1)).Within bound := by
  have hzero : (zeroDraws.draw n).value = 0 := Nat.cast_zero
  have hnan : opts.delayMs (zeroDraws.draw n) (n + 1) = .nan := by
    unfold delayMs
    cases h : opts.exponentialCap (n + 1) with
    | nan => rfl
    | infinity =>
      unfold Number.mul
      exact if_pos hzero
    | finite cap => exact absurd h (hcap cap)
  rw [hnan]
  exact id

section Finite

variable {base limit : NonnegDouble} (hbase : opts.baseDelayMs = .finite base)
  (hmax : opts.maxDelayMs = .finite limit)

include hbase hmax

private theorem scaled_min (n : ℕ) : min (opts.maxDelayMs.scaled 0) (opts.baseDelayMs.scaled n) =
    ((min limit.value (base.value * 2 ^ n) : ℚ) : WithTop ℚ) := by
  rw [hbase,hmax,WithTop.coe_min]
  unfold NonnegNumber.scaled
  dsimp only
  rw [pow_zero,mul_one]

private theorem within_of_lt (random : RandomSource) {n : ℕ} (hn : n < 1024) :
    (opts.delayMs (random.draw n) (n + 1)).Within
      (min (opts.maxDelayMs.scaled 0) (opts.baseDelayMs.scaled n)) := by
  obtain ⟨cap,hcap,hvalue⟩ := Number.min_mul_twoPow base limit hn
  rw [scaled_min hbase hmax]
  apply within_of_finite (random.lt_one n)
  · unfold exponentialCap
    rw [hbase,hmax]
    exact hcap
  · rw [hvalue]

/-- Afterwards it is `maxDelayMs`, unless `baseDelayMs` is zero. -/
theorem exponentialCap_overflow {n : ℕ} (hn : 1024 ≤ n) :
    opts.exponentialCap (n + 1) = if base.value = 0 then .nan else .finite limit := by
  unfold exponentialCap
  rw [hbase,hmax,Nat.add_sub_cancel]
  unfold NonnegNumber.toNumber
  dsimp only
  rw [Number.mul_twoPow_overflow base hn]
  split <;> rfl

private theorem bounded_of_outgrows (h : Outgrows base limit) (random : RandomSource) (k : ℕ) :
    opts.Bounded random k := by
  intro n _
  by_cases hn : n < 1024
  · exact within_of_lt hbase hmax random hn
  have hcap := exponentialCap_overflow hbase hmax (not_lt.mp hn)
  rw [if_neg h.1.ne'] at hcap
  obtain ⟨d,hd,hvalue,hle⟩ := delayMs_of_finite (random.lt_one n) hcap
  rw [scaled_min hbase hmax,hd]
  refine ⟨d.nonneg,WithTop.coe_le_coe.mpr (le_min hle ?_)⟩
  have hrandom := mul_le_mul_of_nonneg_right
    (NonnegDouble.le_belowOne (random.lt_one n)) limit.nonneg
  calc d.value = nearest ((random.draw n).value * limit.value) := hvalue
    _ ≤ nearest (belowOne * limit.value) :=
      nearest_mono (mul_nonneg (random.draw n).nonneg limit.nonneg) hrandom
    _ ≤ base.value * 2 ^ 1024 := h.2
    _ ≤ base.value * 2 ^ n :=
      mul_le_mul_of_nonneg_left (pow_le_pow_right₀ (by norm_num) (not_lt.mp hn)) h.1.le

omit hbase hmax in
def largestDraws : RandomSource where
  draw _ := NonnegDouble.belowOne
  lt_one _ := by norm_num [NonnegDouble.belowOne,belowOne]

/-- The delay of the 1025th sleep shows whether the options outgrow the overflow. -/
theorem outgrows_of_bounded {k : ℕ} (hk : 1026 ≤ k) (h : opts.Bounded largestDraws k) :
    Outgrows base limit := by
  have hwithin := h 1024 (by omega)
  have hcap := exponentialCap_overflow hbase hmax (le_refl 1024)
  by_cases hzero : base.value = 0
  · unfold delayMs at hwithin
    rw [hcap,if_pos hzero] at hwithin
    exact hwithin.elim
  · rw [if_neg hzero] at hcap
    obtain ⟨d,hd,hvalue,_⟩ := delayMs_of_finite (largestDraws.lt_one 1024) hcap
    rw [hd,scaled_min hbase hmax] at hwithin
    have hle := WithTop.coe_le_coe.mp hwithin.2
    refine ⟨lt_of_le_of_ne base.nonneg (Ne.symm hzero),?_⟩
    exact hvalue.symm.le.trans (hle.trans (min_le_right _ _))

theorem bounded_iff_finite (k : ℕ) :
    (∀ random, opts.Bounded random k) ↔ k ≤ 1025 ∨ Outgrows base limit := by
  constructor
  · intro hbounded
    by_cases hle : k ≤ 1025
    · exact .inl hle
    · exact .inr (outgrows_of_bounded hbase hmax (by omega) (hbounded largestDraws))
  · rintro (hle | houtgrows) random
    · exact fun n hn => within_of_lt hbase hmax random (by omega)
    · exact bounded_of_outgrows hbase hmax houtgrows random k

end Finite

/-- An infinite `baseDelayMs` leaves `maxDelayMs` as the cap. -/
theorem bounded_of_infinite_base {limit : NonnegDouble} (hbase : opts.baseDelayMs = .infinity)
    (hmax : opts.maxDelayMs = .finite limit) (random : RandomSource) (k : ℕ) :
    opts.Bounded random k := by
  intro n _
  apply within_of_finite (random.lt_one n)
  · unfold exponentialCap
    rw [hbase,hmax]
    unfold NonnegNumber.toNumber
    dsimp only
    rw [Number.infinity_mul_twoPow]
    rfl
  · rw [hbase,hmax]
    unfold NonnegNumber.scaled
    dsimp only
    rw [pow_zero,mul_one]
    exact le_min le_rfl le_top

/-- Without a cap, the delays are numbers as long as the product is one. -/
theorem bounded_iff_infinite_max {base : NonnegDouble} (hbase : opts.baseDelayMs = .finite base)
    (hmax : opts.maxDelayMs = .infinity) (k : ℕ) : (∀ random, opts.Bounded random k) ↔
      k ≤ 1 ∨ k ≤ 1025 ∧ base.value * 2 ^ (k - 2) < 2 ^ 1024 := by
  have hcap : ∀ n, opts.exponentialCap (n + 1) =
      Number.min .infinity (Number.mul (.finite base) (Number.twoPow n)) := by
    intro n
    unfold exponentialCap
    rw [hbase,hmax]
    rfl
  constructor
  · intro hbounded
    by_cases hone : k ≤ 1
    · exact .inl hone
    have hwithin := hbounded zeroDraws (k - 2) (by omega)
    have hfinite : ∃ cap, opts.exponentialCap (k - 2 + 1) = .finite cap := by
      by_contra hnone
      exact not_within_zero (fun cap heq => hnone ⟨cap,heq⟩) hwithin
    obtain ⟨cap,heq⟩ := hfinite
    rw [hcap] at heq
    by_cases hn : k - 2 < 1024
    · refine .inr ⟨by omega,?_⟩
      by_contra hover
      rw [Number.mul_twoPow_infinity base hn (not_lt.mp hover)] at heq
      cases heq
    · rw [Number.mul_twoPow_overflow base (not_lt.mp hn)] at heq
      split at heq <;> cases heq
  · rintro (hone | ⟨hle,hlt⟩) random n hn
    · omega
    · have hpow : base.value * 2 ^ n ≤ base.value * 2 ^ (k - 2) :=
        mul_le_mul_of_nonneg_left (pow_le_pow_right₀ (by norm_num) (by omega)) base.nonneg
      obtain ⟨cap,heq,hvalue⟩ :=
        Number.mul_twoPow_finite base (show n < 1024 by omega) (hpow.trans_lt hlt)
      apply within_of_finite (random.lt_one n)
      · rw [hcap,heq]
        rfl
      · rw [hbase,hmax,hvalue]
        exact le_min le_top le_rfl

theorem bounded_iff_infinite (hbase : opts.baseDelayMs = .infinity)
    (hmax : opts.maxDelayMs = .infinity) (k : ℕ) :
    (∀ random, opts.Bounded random k) ↔ k ≤ 1 := by
  constructor
  · intro hbounded
    by_contra hone
    refine not_within_zero (fun cap heq => ?_) (hbounded zeroDraws 0 (by omega))
    unfold exponentialCap at heq
    rw [hbase,hmax] at heq
    unfold NonnegNumber.toNumber at heq
    dsimp only at heq
    rw [Number.infinity_mul_twoPow] at heq
    cases heq
  · intro hone random n hn
    omega

theorem bounded_iff_fits (opts : RetryOptions ε) (k : ℕ) :
    (∀ random, opts.Bounded random k) ↔ opts.Fits k := by
  unfold Fits
  cases hbase : opts.baseDelayMs with
  | finite base =>
    cases hmax : opts.maxDelayMs with
    | finite limit => exact bounded_iff_finite hbase hmax k
    | infinity => exact bounded_iff_infinite_max hbase hmax k
  | infinity =>
    cases hmax : opts.maxDelayMs with
    | finite limit =>
      exact iff_of_true (fun random => bounded_of_infinite_base hbase hmax random k) trivial
    | infinity => exact bounded_iff_infinite hbase hmax k

/-- The attempts, the sleeps and the result are as specified. The delays are too, whatever the
random numbers, exactly if no overflow spoils them. -/
theorem retryWithBackoff_spec (opts : RetryOptions ε) (fn : ℕ → Settlement α ε)
    (h : 1 ≤ opts.maxAttempts) : ∃ k, IsLeast (opts.stops fn) k ∧
      (∀ random, opts.Follows fn random k) ∧
      ((∀ random, opts.Bounded random k) ↔ opts.Fits k) := by
  obtain ⟨k,hk⟩ : ∃ k, IsLeast (opts.stops fn) k := exists_lastAttempt h
  exact ⟨k,hk,retryWithBackoff_follows h hk,bounded_iff_fits opts k⟩

end RetryOptions

/-- No delay at all between the attempts. -/
def withoutDelay (maxAttempts : ℕ) : RetryOptions Unit where
  maxAttempts
  baseDelayMs := .finite (.ofNat 0 (by decide))
  maxDelayMs := .finite (.ofNat 500 (by decide))
  isRetryable _ := true
  onRetry := true

def alwaysFails : ℕ → Settlement Unit Unit := fun _ => .rejected ()

/-- Zero times infinity: the delay of the 1025th sleep is not a number. -/
theorem withoutDelay_nan : IsLeast ((withoutDelay 1026).stops alwaysFails) 1026 ∧
    ∀ random : RandomSource, ¬ (withoutDelay 1026).Bounded random 1026 ∧
      .sleep .nan ∈ ((withoutDelay 1026).retryWithBackoff alwaysFails random.draw).1 := by
  have hleast : IsLeast ((withoutDelay 1026).stops alwaysFails) 1026 := by
    refine ⟨⟨by decide,.inr rfl⟩,?_⟩
    rintro i ⟨_,hretries | rfl⟩
    · cases hretries
    · exact le_rfl
  refine ⟨hleast,fun random => ?_⟩
  have hnan : (withoutDelay 1026).delayMs (random.draw 1024) (1024 + 1) = .nan := by
    have hbase : (NonnegDouble.ofNat 0 (by decide)).value = 0 := Nat.cast_zero
    have hcap : (withoutDelay 1026).exponentialCap (1024 + 1) = .nan :=
      (RetryOptions.exponentialCap_overflow rfl rfl le_rfl).trans (if_pos hbase)
    unfold RetryOptions.delayMs
    rw [hcap]
    rfl
  constructor
  · intro hbounded
    have hwithin := hbounded 1024 (by decide)
    rw [hnan] at hwithin
    exact hwithin
  · have hfollows := RetryOptions.retryWithBackoff_follows (by decide) hleast random
    unfold RetryOptions.Follows at hfollows
    rw [hfollows]
    apply List.mem_append_left
    apply List.mem_flatMap.mpr
    refine ⟨1024,by simp,?_⟩
    simp [RetryOptions.attemptAndSleep,alwaysFails,RetryOptions.retried,hnan]

theorem withoutDelay_spec : ∃ k, IsLeast ((withoutDelay 3).stops alwaysFails) k ∧
    (∀ random, (withoutDelay 3).Follows alwaysFails random k) ∧
    ((∀ random, (withoutDelay 3).Bounded random k) ↔ (withoutDelay 3).Fits k) :=
  RetryOptions.retryWithBackoff_spec (withoutDelay 3) alwaysFails (by decide)

end SystemsLab.Resilience
