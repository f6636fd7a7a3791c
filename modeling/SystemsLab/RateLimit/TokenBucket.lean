import SystemsLab.Framework.Transition
import Mathlib.Algebra.Order.Field.Rat
import Mathlib.Data.Rat.Floor
import Mathlib.Tactic.Linarith

/-!
# Token bucket rate limiting

One script call reads the bucket, refills it for the time since its last touch, takes the cost
if it is there, and writes the bucket back. Numbers are exact. A limiter is looked at through
one of its keys.
-/

namespace SystemsLab.RateLimit

structure TokenBucketConfig where
  capacity : ℚ
  refillPerSecond : ℚ
  cost : ℚ := 1
  deriving DecidableEq, Repr

/-- `detail` counts tokens for a bucket and requests for a window. -/
structure RateLimitDecision (ν : Type) where
  allowed : Bool
  detail : ν
  deriving DecidableEq, Repr

/-- The hash under a key, and when `EXPIRE` takes it away on the clock of Redis. -/
structure Bucket where
  tokens : ℚ
  lastRefillMs : ℚ
  expiresAtMs : ℚ
  deriving DecidableEq, Repr

/-- The tokens in the bucket at `nowMs`, before the cost is taken. -/
def refilled (capacity refillPerSecond nowMs : ℚ) (data : Option Bucket) : ℚ :=
  let tokens := (data.map Bucket.tokens).getD capacity
  let lastRefillMs := (data.map Bucket.lastRefillMs).getD nowMs
  let elapsedSeconds := max 0 ((nowMs - lastRefillMs) / 1000)
  min capacity (tokens + elapsedSeconds * refillPerSecond)

/-- `TOKEN_BUCKET_SCRIPT`, run when the clock of Redis shows `redisMs`. -/
def tokenBucketScript (redisMs : ℚ) (data : Option Bucket)
    (capacity refillPerSecond nowMs cost : ℚ) (ttlSeconds : ℤ) : Bucket × RateLimitDecision ℚ :=
  let tokens := refilled capacity refillPerSecond nowMs data
  let allowed := decide (cost ≤ tokens)
  let left := if cost ≤ tokens then tokens - cost else tokens
  (⟨left,nowMs,redisMs + 1000 * ttlSeconds⟩,⟨allowed,left⟩)

namespace TokenBucketConfig

def ttlSeconds (config : TokenBucketConfig) : ℤ :=
  max 60 ⌈config.capacity / config.refillPerSecond * 4⌉

/-- `check(clientKey, now)` of `createTokenBucketLimiter`. -/
def check (config : TokenBucketConfig) (redisMs : ℚ) (data : Option Bucket) (now : ℚ) :
    Bucket × RateLimitDecision ℚ :=
  tokenBucketScript redisMs data config.capacity config.refillPerSecond now config.cost
    config.ttlSeconds

/-- The tokens that a check at `now` finds. -/
def found (config : TokenBucketConfig) (data : Option Bucket) (now : ℚ) : ℚ :=
  refilled config.capacity config.refillPerSecond now data

/-- What a check at `now` takes. -/
def taken (config : TokenBucketConfig) (data : Option Bucket) (now : ℚ) : ℚ :=
  if config.cost ≤ config.found data now then config.cost else 0

variable {config : TokenBucketConfig} {redisMs now : ℚ} {data : Option Bucket}

theorem check_lastRefillMs : (config.check redisMs data now).1.lastRefillMs = now := rfl

theorem check_expiresAtMs : (config.check redisMs data now).1.expiresAtMs =
    redisMs + 1000 * config.ttlSeconds := rfl

theorem check_allowed :
    (config.check redisMs data now).2.allowed = decide (config.cost ≤ config.found data now) := by
  unfold check tokenBucketScript found
  rfl

theorem check_tokens : (config.check redisMs data now).1.tokens =
    config.found data now - config.taken data now := by
  show (if config.cost ≤ config.found data now then _ else _) = _
  unfold taken
  split
  · rfl
  · exact (sub_zero _).symm

theorem found_none : config.found none now = config.capacity := by
  simp [found,refilled]

theorem found_some (bucket : Bucket) : config.found (some bucket) now =
    min config.capacity (bucket.tokens +
      max 0 ((now - bucket.lastRefillMs) / 1000) * config.refillPerSecond) := rfl

theorem found_le (config : TokenBucketConfig) (data : Option Bucket) (now : ℚ) :
    config.found data now ≤ config.capacity := min_le_left _ _

theorem le_found {floor : ℚ} (hrefill : 0 ≤ config.refillPerSecond)
    (hcapacity : floor ≤ config.capacity)
    (h : ∀ bucket, data = some bucket → floor ≤ bucket.tokens) :
    floor ≤ config.found data now := by
  cases data with
  | none =>
    rw [found_none]
    exact hcapacity
  | some bucket =>
    rw [found_some]
    apply le_min hcapacity
    have htokens := h bucket rfl
    have hrefilled : 0 ≤ max 0 ((now - bucket.lastRefillMs) / 1000) * config.refillPerSecond :=
      mul_nonneg (le_max_left _ _) hrefill
    linarith

theorem le_tokens {floor : ℚ} (hfloor : floor ≤ 0) (hfound : floor ≤ config.found data now) :
    floor ≤ (config.check redisMs data now).1.tokens := by
  rw [check_tokens,taken]
  split <;> linarith

end TokenBucketConfig

end SystemsLab.RateLimit
