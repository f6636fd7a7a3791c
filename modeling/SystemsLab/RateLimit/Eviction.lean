import SystemsLab.RateLimit.TokenBucket

/-!
# An idle bucket may be forgotten

`EXPIRE` drops a bucket that has not been touched for long. By then it would be full again, so
the limiter decides as if nothing had been dropped.
-/

namespace SystemsLab.RateLimit

/-- What Redis still has of a hash when its clock shows `redisMs`. -/
def unexpired (redisMs : ℚ) (data : Option Bucket) : Option Bucket :=
  data.filter fun bucket => redisMs < bucket.expiresAtMs

/-- A Redis that never drops anything. -/
def unevicted (_redisMs : ℚ) (data : Option Bucket) : Option Bucket := data

/-- What a sequence of calls writes and returns. The clock of Redis agrees with that of the
callers, and `stored` is what Redis still has when a call comes in. -/
def checks (config : TokenBucketConfig) (stored : ℚ → Option Bucket → Option Bucket) :
    Option Bucket → List ℚ → List (Bucket × RateLimitDecision ℚ)
  | _, [] => []
  | data, now::nows =>
    let result := config.check now (stored now data) now
    result::checks config stored (some result.1) nows

variable {config : TokenBucketConfig} {data : Option Bucket} {now : ℚ} {nows : List ℚ}

private theorem unexpired_some (bucket : Bucket) : unexpired now (some bucket) =
    if now < bucket.expiresAtMs then some bucket else none := by
  unfold unexpired
  by_cases hlive : now < bucket.expiresAtMs <;> simp [Option.filter,hlive]

theorem check_congr {data' : Option Bucket} (redisMs : ℚ)
    (h : config.found data now = config.found data' now) :
    config.check redisMs data now = config.check redisMs data' now := by
  unfold TokenBucketConfig.found at h
  unfold TokenBucketConfig.check tokenBucketScript
  rw [h]

private theorem capacity_le_ttl (hrefill : 0 < config.refillPerSecond) :
    config.capacity * 4 ≤ config.ttlSeconds * config.refillPerSecond := by
  have hceil : config.capacity / config.refillPerSecond * 4 ≤ (config.ttlSeconds : ℚ) := by
    apply (Int.le_ceil _).trans
    exact_mod_cast le_max_right (60 : ℤ) _
  have hscaled := mul_le_mul_of_nonneg_right hceil (le_of_lt hrefill)
  have hcancel : config.capacity / config.refillPerSecond * 4 * config.refillPerSecond =
      config.capacity * 4 := by
    field_simp
  rwa [hcancel] at hscaled

/-- A bucket that the last call has left, seen from a later call. -/
structure Bucket.Left (config : TokenBucketConfig) (now : ℚ) (bucket : Bucket) : Prop where
  floor : min 0 config.capacity ≤ bucket.tokens
  expires : bucket.expiresAtMs = bucket.lastRefillMs + 1000 * config.ttlSeconds
  past : bucket.lastRefillMs ≤ now

def LeftBy (config : TokenBucketConfig) (now : ℚ) (data : Option Bucket) : Prop :=
  ∀ bucket, data = some bucket → bucket.Left config now

/-- A bucket that has expired would be full. -/
theorem Bucket.Left.full {bucket : Bucket} (h : bucket.Left config now)
    (hrefill : 0 < config.refillPerSecond) (hexpired : bucket.expiresAtMs ≤ now) :
    config.found (some bucket) now = config.capacity := by
  have hidle : (config.ttlSeconds : ℚ) ≤ (now - bucket.lastRefillMs) / 1000 := by
    rw [h.expires] at hexpired
    rw [le_div_iff₀ (by norm_num)]
    linarith
  have helapsed := hidle.trans (le_max_right 0 ((now - bucket.lastRefillMs) / 1000))
  have hrefilled := mul_le_mul_of_nonneg_right helapsed (le_of_lt hrefill)
  have hfloor := h.floor
  have httl := capacity_le_ttl hrefill
  have hnonneg : 0 ≤ max 0 ((now - bucket.lastRefillMs) / 1000) * config.refillPerSecond :=
    mul_nonneg (le_max_left _ _) (le_of_lt hrefill)
  rw [TokenBucketConfig.found_some]
  apply min_eq_left
  rcases le_total 0 config.capacity with hcapacity | hcapacity
  · rw [min_eq_left hcapacity] at hfloor
    linarith
  · rw [min_eq_right hcapacity] at hfloor
    linarith

/-- So dropping it changes nothing. -/
theorem LeftBy.found_unexpired (h : LeftBy config now data)
    (hrefill : 0 < config.refillPerSecond) :
    config.found (unexpired now data) now = config.found data now := by
  cases data with
  | none => rfl
  | some bucket =>
    rw [unexpired_some]
    split
    · rfl
    · rename_i hexpired
      rw [TokenBucketConfig.found_none]
      exact ((h bucket rfl).full hrefill (le_of_not_gt hexpired)).symm

private theorem LeftBy.check (h : LeftBy config now data) (hrefill : 0 < config.refillPerSecond)
    {later : ℚ} (hlater : now ≤ later) :
    LeftBy config later (some (config.check now data now).1) := by
  intro bucket hbucket
  rw [← Option.some.inj hbucket]
  constructor
  · apply TokenBucketConfig.le_tokens (min_le_left _ _)
    exact TokenBucketConfig.le_found (le_of_lt hrefill) (min_le_right _ _)
      fun b hb => (h b hb).floor
  · rw [TokenBucketConfig.check_expiresAtMs,TokenBucketConfig.check_lastRefillMs]
  · exact hlater

private theorem checks_eq (hrefill : 0 < config.refillPerSecond) (hsorted : nows.Pairwise (· ≤ ·))
    (hdata : ∀ now ∈ nows, LeftBy config now data) :
    checks config unexpired data nows = checks config unevicted data nows := by
  induction nows generalizing data with
  | nil => rfl
  | cons now nows ih =>
    rw [List.pairwise_cons] at hsorted
    have hnow := hdata now List.mem_cons_self
    have hsame : config.check now (unexpired now data) now = config.check now data now :=
      check_congr now (hnow.found_unexpired hrefill)
    show config.check now (unexpired now data) now::_ = config.check now data now::_
    rw [hsame,ih hsorted.2 fun later hlater => hnow.check hrefill (hsorted.1 later hlater)]
    rfl

private theorem checks_tokens (hrefill : 0 < config.refillPerSecond)
    (hcapacity : 0 ≤ config.capacity)
    (hcost : 0 ≤ config.cost) (hdata : ∀ bucket, data = some bucket → 0 ≤ bucket.tokens) :
    ∀ result ∈ checks config unevicted data nows,
      0 ≤ result.1.tokens ∧ result.1.tokens ≤ config.capacity := by
  induction nows generalizing data with
  | nil => exact fun _ hresult => absurd hresult List.not_mem_nil
  | cons now nows ih =>
    have hfound : 0 ≤ config.found data now :=
      TokenBucketConfig.le_found (le_of_lt hrefill) hcapacity hdata
    have htokens : 0 ≤ (config.check now data now).1.tokens :=
      TokenBucketConfig.le_tokens (le_refl 0) hfound
    intro result hresult
    rcases List.mem_cons.mp hresult with rfl | hresult
    · refine ⟨htokens,?_⟩
      show (config.check now data now).1.tokens ≤ config.capacity
      have hle := config.found_le data now
      rw [TokenBucketConfig.check_tokens,TokenBucketConfig.taken]
      split <;> linarith
    · exact ih (fun bucket hbucket => Option.some.inj hbucket ▸ htokens) result hresult

/-- A limiter whose idle keys expire does the same as one whose keys stay, and with a sensible
capacity and cost the stored tokens are within the capacity. -/
theorem eviction_invisible (config : TokenBucketConfig) (nows : List ℚ)
    (hrefill : 0 < config.refillPerSecond) (hsorted : nows.Pairwise (· ≤ ·)) :
    checks config unexpired none nows = checks config unevicted none nows ∧
      (0 ≤ config.capacity → 0 ≤ config.cost → ∀ result ∈ checks config unexpired none nows,
        0 ≤ result.1.tokens ∧ result.1.tokens ≤ config.capacity) := by
  have hnone : ∀ now ∈ nows, LeftBy config now none :=
    fun _ _ _ hbucket => absurd hbucket (Option.some_ne_none _).symm
  have heq := checks_eq hrefill hsorted hnone
  refine ⟨heq,?_⟩
  intro hcapacity hcost
  rw [heq]
  exact checks_tokens hrefill hcapacity hcost fun _ hbucket =>
    absurd hbucket (Option.some_ne_none _).symm

def smallBucket : TokenBucketConfig := ⟨2,1,1⟩

/-- The bucket is drained, left alone for a minute, and drained again. -/
def idleMinute : List ℚ := [0,0,0,60000,60000,60000,61000]

theorem idleMinute_invisible : checks smallBucket unexpired none idleMinute =
      checks smallBucket unevicted none idleMinute ∧
    (0 ≤ smallBucket.capacity → 0 ≤ smallBucket.cost →
      ∀ result ∈ checks smallBucket unexpired none idleMinute,
        0 ≤ result.1.tokens ∧ result.1.tokens ≤ smallBucket.capacity) :=
  eviction_invisible _ _ (by decide +kernel) (by decide +kernel)

/-- A negative cost fills the bucket over its capacity. -/
theorem negativeCost_overfills : ¬ ∀ (config : TokenBucketConfig) (nows : List ℚ),
    0 < config.refillPerSecond → nows.Pairwise (· ≤ ·) →
      (checks config unexpired none nows).map Prod.snd =
          (checks config unevicted none nows).map Prod.snd ∧
        ∀ result ∈ checks config unexpired none nows,
          0 ≤ result.1.tokens ∧ result.1.tokens ≤ config.capacity := by
  intro hclaim
  have hrange := (hclaim ⟨1,1,-1⟩ [0] (by decide +kernel) (by decide +kernel)).2
  revert hrange
  decide +kernel

end SystemsLab.RateLimit
