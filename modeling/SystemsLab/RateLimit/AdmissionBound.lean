import SystemsLab.RateLimit.TokenBucket

/-!
# How much a token bucket lets through

A block of checks admits at most the capacity and what is refilled within the block. The refill
is paid for every forward step of the clock that the calls supply, so a stretch of time that is
crossed twice is paid for twice.
-/

namespace SystemsLab.RateLimit

/-- A call of `check`: what the clock of Redis shows, and the `now` of the calling process. -/
structure Call where
  redisMs : ℚ
  now : ℚ
  deriving DecidableEq, Repr

inductive KeyEvent
  | check (call : Call)
  | evict
  deriving DecidableEq, Repr

/-- The parameters that make sense for a limiter. -/
structure TokenBucketConfig.Valid (config : TokenBucketConfig) : Prop where
  capacity : 0 ≤ config.capacity
  refill : 0 < config.refillPerSecond
  cost : 0 ≤ config.cost

/-- One script call or eviction on the key. -/
def keyStep (config : TokenBucketConfig) (data : Option Bucket) :
    KeyEvent → Option (Option Bucket)
  | .check call => some (some (config.check call.redisMs data call.now).1)
  | .evict => some none

/-- The total cost that a block of calls is admitted for. -/
def admittedCost (config : TokenBucketConfig) : Option Bucket → List Call → ℚ
  | _, [] => 0
  | data, call::calls =>
    let (bucket,decision) := config.check call.redisMs data call.now
    (if decision.allowed then config.cost else 0) + admittedCost config (some bucket) calls

/-- The sum of the forward steps of a clock. -/
def forwardMs : List ℚ → ℚ
  | s::t::nows => max 0 (t - s) + forwardMs (t::nows)
  | _ => 0

private theorem forwardMs_nonneg (nows : List ℚ) : 0 ≤ forwardMs nows := by
  induction nows with
  | nil => exact le_refl 0
  | cons s nows ih =>
    cases nows with
    | nil => exact le_refl 0
    | cons t nows => exact add_nonneg (le_max_left _ _) ih

private theorem forwardMs_le_of_sorted {s a b : ℚ} {nows : List ℚ}
    (hsorted : (s::nows).Pairwise (· ≤ ·)) (hin : ∀ t ∈ s::nows, a ≤ t ∧ t ≤ b) :
    forwardMs (s::nows) ≤ b - s := by
  induction nows generalizing s with
  | nil =>
    have hs := hin s (List.mem_singleton_self s)
    show (0 : ℚ) ≤ b - s
    linarith
  | cons t nows ih =>
    rw [List.pairwise_cons] at hsorted
    have hst : s ≤ t := hsorted.1 t List.mem_cons_self
    have hrest := ih hsorted.2 fun u hu => hin u (List.mem_cons_of_mem s hu)
    show max 0 (t - s) + forwardMs (t::nows) ≤ b - s
    rw [max_eq_right (sub_nonneg.mpr hst)]
    linarith

variable {config : TokenBucketConfig} {data : Option Bucket} {calls : List Call}

private theorem admittedCost_cons (call : Call) : admittedCost config data (call::calls) =
    config.taken data call.now +
      admittedCost config (some (config.check call.redisMs data call.now).1) calls := by
  have htaken : (if (config.check call.redisMs data call.now).2.allowed then config.cost else 0) =
      config.taken data call.now := by
    rw [TokenBucketConfig.check_allowed,TokenBucketConfig.taken]
    simp only [decide_eq_true_eq]
  rw [← htaken]
  rfl

private theorem admittedCost_nonneg (h : config.Valid) (data : Option Bucket) (calls : List Call) :
    0 ≤ admittedCost config data calls := by
  induction calls generalizing data with
  | nil => exact le_refl 0
  | cons call calls ih =>
    rw [admittedCost_cons]
    apply add_nonneg _ (ih _)
    unfold TokenBucketConfig.taken
    split
    · exact h.cost
    · exact le_refl 0

/-- No stored bucket is overdrawn. -/
def Solvent (data : Option Bucket) : Prop :=
  ∀ bucket, data = some bucket → 0 ≤ bucket.tokens

private theorem Solvent.found_nonneg (hdata : Solvent data) (h : config.Valid) (now : ℚ) :
    0 ≤ config.found data now :=
  TokenBucketConfig.le_found (le_of_lt h.refill) h.capacity hdata

private theorem Solvent.check (hdata : Solvent data) (h : config.Valid) (redisMs now : ℚ) :
    Solvent (some (config.check redisMs data now).1) := by
  intro bucket hbucket
  rw [← Option.some.inj hbucket]
  exact TokenBucketConfig.le_tokens (le_refl 0) (hdata.found_nonneg h now)

theorem solvent_of_reachable (h : config.Valid)
    (hreach : Reachable (keyStep config) (· = none) data) : Solvent data := by
  apply hreach.invariant
  · intro key hkey bucket hbucket
    rw [hkey] at hbucket
    cases hbucket
  · intro key e key' hkey _ hstep
    cases e with
    | check call =>
      cases hstep
      exact hkey.check h _ _
    | evict =>
      cases hstep
      intro bucket hbucket
      cases hbucket

/-- The potential of a block: what is left in the bucket and what the clock will pay for. -/
theorem admittedCost_le (h : config.Valid) {bucket : Bucket} (hbucket : 0 ≤ bucket.tokens)
    (calls : List Call) :
    admittedCost config (some bucket) calls ≤ bucket.tokens +
      config.refillPerSecond * forwardMs (bucket.lastRefillMs::calls.map Call.now) / 1000 := by
  induction calls generalizing bucket with
  | nil =>
    show (0 : ℚ) ≤ bucket.tokens + config.refillPerSecond * 0 / 1000
    linarith
  | cons call calls ih =>
    have hsolvent : Solvent (some bucket) := fun _ hb => Option.some.inj hb ▸ hbucket
    have hrest := ih (hsolvent.check h call.redisMs call.now _ rfl)
    rw [TokenBucketConfig.check_tokens,TokenBucketConfig.check_lastRefillMs] at hrest
    have hfound : config.found (some bucket) call.now ≤ bucket.tokens +
        max 0 ((call.now - bucket.lastRefillMs) / 1000) * config.refillPerSecond :=
      min_le_right _ _
    have hstep : max 0 ((call.now - bucket.lastRefillMs) / 1000) =
        max 0 (call.now - bucket.lastRefillMs) / 1000 := by
      rw [← max_div_div_right (by norm_num : (0 : ℚ) ≤ 1000),zero_div]
    rw [hstep] at hfound
    rw [admittedCost_cons]
    show _ ≤ bucket.tokens + config.refillPerSecond *
      (max 0 (call.now - bucket.lastRefillMs) + forwardMs (call.now::calls.map Call.now)) / 1000
    calc config.taken (some bucket) call.now + admittedCost config _ calls
        ≤ config.found (some bucket) call.now +
          config.refillPerSecond * forwardMs (call.now::calls.map Call.now) / 1000 := by linarith
      _ ≤ bucket.tokens +
            max 0 (call.now - bucket.lastRefillMs) / 1000 * config.refillPerSecond +
          config.refillPerSecond * forwardMs (call.now::calls.map Call.now) / 1000 := by linarith
      _ = _ := by ring

/-- The first call of a block finds at most a full bucket. -/
theorem admittedCost_le_capacity (h : config.Valid) (hdata : Solvent data) (calls : List Call) :
    admittedCost config data calls ≤
      config.capacity + config.refillPerSecond * forwardMs (calls.map Call.now) / 1000 := by
  cases calls with
  | nil =>
    show (0 : ℚ) ≤ config.capacity + config.refillPerSecond * 0 / 1000
    have hcapacity := h.capacity
    linarith
  | cons call calls =>
    have hrest := admittedCost_le h (hdata.check h call.redisMs call.now _ rfl) calls
    rw [TokenBucketConfig.check_tokens,TokenBucketConfig.check_lastRefillMs] at hrest
    have hfound := config.found_le data call.now
    rw [admittedCost_cons,List.map_cons]
    linarith

/-- The bucket holds exactly what the clock pays for, and a call costs all of it. -/
def allAtOnce (paid : ℚ) : TokenBucketConfig :=
  { capacity := paid, refillPerSecond := 1000, cost := paid }

private theorem allAtOnce_valid {paid : ℚ} (h : 0 ≤ paid) : (allAtOnce paid).Valid :=
  ⟨h,by norm_num [allAtOnce],h⟩

/-- Once the clock has paid for the whole cost, another call has been admitted. -/
theorem le_admittedCost {paid : ℚ} (hpaid : 0 ≤ paid) {bucket : Bucket}
    (hshort : bucket.tokens < paid)
    (htotal : bucket.tokens + forwardMs (bucket.lastRefillMs::calls.map Call.now) = paid) :
    paid ≤ admittedCost (allAtOnce paid) (some bucket) calls := by
  induction calls generalizing bucket with
  | nil =>
    have hzero : bucket.tokens + 0 = paid := htotal
    linarith
  | cons call calls ih =>
    have hvalid := allAtOnce_valid hpaid
    let elapsed := max 0 (call.now - bucket.lastRefillMs)
    have htotal : bucket.tokens + (elapsed + forwardMs (call.now::calls.map Call.now)) = paid :=
      htotal
    have hrest := forwardMs_nonneg (call.now::calls.map Call.now)
    have hfound : (allAtOnce paid).found (some bucket) call.now = bucket.tokens + elapsed := by
      have hpart : max 0 ((call.now - bucket.lastRefillMs) / 1000) * 1000 = elapsed := by
        rw [← zero_div (1000 : ℚ),max_div_div_right (by norm_num : (0 : ℚ) ≤ 1000)]
        exact div_mul_cancel₀ _ (by norm_num)
      rw [TokenBucketConfig.found_some]
      show min paid (bucket.tokens + max 0 _ * 1000) = _
      rw [hpart]
      apply min_eq_right
      linarith
    rw [admittedCost_cons]
    by_cases hfull : paid ≤ bucket.tokens + elapsed
    · have htaken : (allAtOnce paid).taken (some bucket) call.now = paid := by
        rw [TokenBucketConfig.taken,hfound]
        exact if_pos hfull
      rw [htaken]
      have hnonneg := admittedCost_nonneg hvalid
        (some ((allAtOnce paid).check call.redisMs (some bucket) call.now).1) calls
      linarith
    · have htaken : (allAtOnce paid).taken (some bucket) call.now = 0 := by
        rw [TokenBucketConfig.taken,hfound]
        exact if_neg hfull
      have htokens : ((allAtOnce paid).check call.redisMs (some bucket) call.now).1.tokens =
          bucket.tokens + elapsed := by
        rw [TokenBucketConfig.check_tokens,hfound,htaken,sub_zero]
      rw [htaken,zero_add]
      apply ih
      · rw [htokens]
        exact lt_of_not_ge hfull
      · rw [htokens,TokenBucketConfig.check_lastRefillMs]
        linarith

private theorem allAtOnce_exceeds {paid : ℚ} (hpaid : 0 < paid)
    (hforward : forwardMs (calls.map Call.now) = paid) :
    paid + paid ≤ admittedCost (allAtOnce paid) none calls := by
  cases calls with
  | nil =>
    have hzero : (0 : ℚ) = paid := hforward
    linarith
  | cons call calls =>
    have htaken : (allAtOnce paid).taken none call.now = paid := by
      rw [TokenBucketConfig.taken,TokenBucketConfig.found_none]
      exact if_pos (le_refl paid)
    have htokens : ((allAtOnce paid).check call.redisMs none call.now).1.tokens = 0 := by
      rw [TokenBucketConfig.check_tokens,htaken,TokenBucketConfig.found_none]
      exact sub_self paid
    rw [admittedCost_cons,htaken]
    have hrest : paid ≤ admittedCost (allAtOnce paid)
        (some ((allAtOnce paid).check call.redisMs none call.now).1) calls := by
      apply le_admittedCost (le_of_lt hpaid)
      · rw [htokens]
        exact hpaid
      · rw [htokens,zero_add,TokenBucketConfig.check_lastRefillMs]
        exact hforward
    linarith

/-- All calls of a block read a clock between `a` and `b`. -/
def Within (a b : ℚ) (calls : List Call) : Prop :=
  a ≤ b ∧ ∀ call ∈ calls, a ≤ call.now ∧ call.now ≤ b

/-- Every configuration keeps to its rate over a block of calls, from every state of the key, if
and only if the clock moves forward by no more than the length of the interval in all. -/
theorem tokenBucket_bounded_iff {a b : ℚ} {calls : List Call} (h : Within a b calls) :
    (∀ config : TokenBucketConfig, config.Valid → ∀ data,
      Reachable (keyStep config) (· = none) data → admittedCost config data calls ≤
        config.capacity + config.refillPerSecond * (b - a) / 1000) ↔
      forwardMs (calls.map Call.now) ≤ b - a := by
  constructor
  · intro hbound
    by_contra hover
    have hlt := lt_of_not_ge hover
    have hpaid : 0 < forwardMs (calls.map Call.now) := lt_of_le_of_lt (sub_nonneg.mpr h.1) hlt
    have hexceeds := allAtOnce_exceeds hpaid rfl
    have hle := hbound _ (allAtOnce_valid (le_of_lt hpaid)) none (.start rfl)
    have hpart : (1000 : ℚ) * (b - a) / 1000 = b - a := by ring
    have hle : admittedCost (allAtOnce (forwardMs (calls.map Call.now))) none calls ≤
        forwardMs (calls.map Call.now) + 1000 * (b - a) / 1000 := hle
    rw [hpart] at hle
    linarith
  · intro hforward config hvalid data hreach
    have hle := admittedCost_le_capacity hvalid (solvent_of_reachable hvalid hreach) calls
    have hscaled : config.refillPerSecond * forwardMs (calls.map Call.now) ≤
        config.refillPerSecond * (b - a) :=
      mul_le_mul_of_nonneg_left hforward (le_of_lt hvalid.refill)
    linarith

theorem forwardMs_le_of_within {a b : ℚ} (h : Within a b calls)
    (hsorted : (calls.map Call.now).Pairwise (· ≤ ·)) : forwardMs (calls.map Call.now) ≤ b - a := by
  cases calls with
  | nil => exact sub_nonneg.mpr h.1
  | cons call calls =>
    have hin : ∀ t ∈ (call::calls).map Call.now, a ≤ t ∧ t ≤ b := by
      intro t ht
      obtain ⟨c,hc,rfl⟩ := List.mem_map.mp ht
      exact h.2 c hc
    have hle := forwardMs_le_of_sorted hsorted hin
    have hcall := h.2 call List.mem_cons_self
    exact hle.trans (sub_le_sub_left hcall.1 b)

/-- A process that is 400 ms behind calls last. -/
def lateProcess : List Call :=
  [⟨0,0⟩,⟨300,300⟩,⟨1000,1000⟩,⟨1001,600⟩]

theorem lateProcess_bounded : admittedCost ⟨1,1,1⟩ none lateProcess ≤ 1 + 1 * (1000 - 0) / 1000 :=
  (tokenBucket_bounded_iff (by unfold Within; decide +kernel)).mpr (by decide +kernel) ⟨1,1,1⟩
    (by constructor <;> decide +kernel) none (.start rfl)

/-- Two processes whose clocks are a second apart take turns. -/
def skewedProcesses : List Call :=
  [⟨0,0⟩,⟨0,1000⟩,⟨0,0⟩,⟨0,1000⟩,⟨0,0⟩,⟨0,1000⟩]

theorem tokenBucket_not_bounded : ¬ ∀ config : TokenBucketConfig, config.Valid → ∀ data,
    Reachable (keyStep config) (· = none) data → ∀ calls a b, Within a b calls →
      admittedCost config data calls ≤
        config.capacity + config.refillPerSecond * (b - a) / 1000 := by
  intro hbound
  have hvalid : (TokenBucketConfig.mk 1 1 1).Valid := by constructor <;> decide +kernel
  have hin : Within 0 1000 skewedProcesses := by unfold Within; decide +kernel
  have hle := hbound _ hvalid none (.start rfl) skewedProcesses 0 1000 hin
  revert hle
  decide +kernel

end SystemsLab.RateLimit
